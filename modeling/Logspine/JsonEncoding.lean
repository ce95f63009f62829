import Mathlib.Data.List.Nodup
import Logspine.JsonText
import Logspine.LogEvent

/-!
# `to_json`

The encoder of `json.cpp`, and the document it writes: every byte string is escaped
so that it decodes to itself, and members are written in order with one comma between
two of them. Parsing `to_json(event)` gives the event's document (`parse_toJson`).
-/

namespace Logspine

variable {D : Type}

/-! ## The encoder -/

/-- `kHexDigits` -/
def kHexDigits (index : UInt8) : UInt8 := (ascii "0123456789ABCDEF").getD index.toNat 0

/-- What `append_json_escaped` appends for one byte. -/
def jsonEscape (ch : UInt8) : Bytes :=
  if ch = '"'.byte then ascii "\\\""
  else if ch = '\\'.byte then ascii "\\\\"
  else if ch = 0x08 then ascii "\\b"
  else if ch = 0x0c then ascii "\\f"
  else if ch = '\n'.byte then ascii "\\n"
  else if ch = '\r'.byte then ascii "\\r"
  else if ch = '\t'.byte then ascii "\\t"
  else if ch < 0x20 then
    ascii "\\u00" ++ [kHexDigits (ch >>> 4 &&& 0x0f), kHexDigits (ch &&& 0x0f)]
  else [ch]

/-- `append_json_escaped` -/
def appendJsonEscaped (value output : Bytes) : Bytes :=
  value.foldl (fun output ch => output ++ jsonEscape ch) output

/-- `append_json_string` -/
def appendJsonString (value output : Bytes) : Bytes :=
  appendJsonEscaped value (output ++ ['"'.byte]) ++ ['"'.byte]

/-- `append_field_value_json` -/
def appendFieldValueJson (fmt : DoubleFormat D) (value : FieldValue D) (output : Bytes) : Bytes :=
  match value with
  | .null => output ++ ascii "null"
  | .bool value => output ++ if value then ascii "true" else ascii "false"
  | .int64 value => output ++ integer value.toInt
  | .uint64 value => output ++ natural value.toNat
  | .double value =>
    if fmt.isFinite value then
      match fmt.toChars value with
      | some text => output ++ text
      | none => output ++ ascii "null"
    else output ++ ascii "null"
  | .string value => appendJsonString value output

/-- `to_json(value)` -/
def FieldValue.toJson (fmt : DoubleFormat D) (value : FieldValue D) : Bytes :=
  appendFieldValueJson fmt value []

/-- An object being written: the output so far, and the flag `first`. -/
structure ObjectOutput where
  output : Bytes
  first : Bool

/-- `if (!first) output.push_back(','); first = false;`, the key and the colon. -/
def ObjectOutput.appendKey (w : ObjectOutput) (key : Bytes) : Bytes :=
  appendJsonString key (if w.first then w.output else w.output ++ [','.byte]) ++ [':'.byte]

/-- `append_fields_object` -/
def appendFieldsObject (fmt : DoubleFormat D) (fields : List (Field D)) (output : Bytes) : Bytes :=
  (fields.foldl (fun (w : ObjectOutput) entry =>
    ⟨appendFieldValueJson fmt entry.value (w.appendKey entry.key), false⟩)
    ⟨output ++ ['{'.byte], true⟩).output ++ ['}'.byte]

/-- `append_named_string` -/
def ObjectOutput.appendNamedString (w : ObjectOutput) (key value : Bytes) : ObjectOutput :=
  ⟨appendJsonString value (w.appendKey key), false⟩

/-- `append_named_string`, when there is a value -/
def ObjectOutput.appendOptionalString (w : ObjectOutput) (key : Bytes) :
    Option Bytes → ObjectOutput
  | some value => w.appendNamedString key value
  | none => w

/-- `append_named_object` -/
def ObjectOutput.appendNamedObject (fmt : DoubleFormat D) (w : ObjectOutput) (key : Bytes)
    (fields : List (Field D)) : ObjectOutput :=
  ⟨appendFieldsObject fmt fields (w.appendKey key), false⟩

/-- The members `file`, `line` and `function`. -/
def ObjectOutput.appendLocation (w : ObjectOutput) : Option SourceLocation → ObjectOutput
  | some location =>
    let w := w.appendNamedString (ascii "file") location.fileName
    let w : ObjectOutput :=
      ⟨w.appendKey (ascii "line") ++ natural location.line.toNat, false⟩
    w.appendNamedString (ascii "function") location.functionName
  | none => w

/-- `to_json(event)` -/
def LogEvent.toJson (fmt : DoubleFormat D) (event : LogEvent D) : Bytes :=
  let w : ObjectOutput := ⟨['{'.byte], true⟩
  let w := w.appendNamedString (ascii "@timestamp") (formatTimestamp event.timestamp)
  let w := w.appendNamedString (ascii "level") event.severity.toString
  let w := w.appendNamedString (ascii "logger") event.loggerName
  let w := w.appendNamedString (ascii "message") event.message
  let w := w.appendNamedString (ascii "thread_id") (formatThreadId event.threadId)
  let w := w.appendLocation event.location
  let w := w.appendOptionalString (ascii "trace_id") event.traceId
  let w := w.appendOptionalString (ascii "span_id") event.spanId
  let w := w.appendOptionalString (ascii "correlation_id") event.correlationId
  let w := w.appendNamedObject fmt (ascii "fields") event.fields
  w.output ++ ['}'.byte]

/-! ## The document of an event -/

/-- The JSON value of a field value. -/
def FieldValue.json (fmt : DoubleFormat D) : FieldValue D → Json
  | null => .null
  | bool value => .bool value
  | int64 value => .number (integer value.toInt)
  | uint64 value => .number (natural value.toNat)
  | double value =>
    if fmt.isFinite value then (fmt.toChars value).elim .null .number else .null
  | string value => .string value

/-- The member of a field. -/
def Field.member (fmt : DoubleFormat D) (entry : Field D) : Bytes × Json :=
  (entry.key, entry.value.json fmt)

/-- The members of a source location. -/
def SourceLocation.members (location : SourceLocation) : List (Bytes × Json) :=
  [(ascii "file", .string location.fileName),
    (ascii "line", .number (natural location.line.toNat)),
    (ascii "function", .string location.functionName)]

/-- The members of an optional string. -/
def optionalMember (key : Bytes) (value : Option Bytes) : List (Bytes × Json) :=
  value.toList.map fun value => (key, .string value)

/-- The members of an event, in order. -/
def LogEvent.members (fmt : DoubleFormat D) (event : LogEvent D) : List (Bytes × Json) :=
  [(ascii "@timestamp", .string (formatTimestamp event.timestamp)),
    (ascii "level", .string event.severity.toString),
    (ascii "logger", .string event.loggerName),
    (ascii "message", .string event.message),
    (ascii "thread_id", .string (formatThreadId event.threadId))] ++
  event.location.elim [] SourceLocation.members ++
  optionalMember (ascii "trace_id") event.traceId ++
  optionalMember (ascii "span_id") event.spanId ++
  optionalMember (ascii "correlation_id") event.correlationId ++
  [(ascii "fields", .object (event.fields.map (Field.member fmt)))]

/-- What `std::to_chars` owes for finite doubles: it succeeds and writes a JSON number. -/
def DoubleFormat.WritesNumbers (fmt : DoubleFormat D) : Prop :=
  ∀ d, fmt.isFinite d = true → ∃ text, fmt.toChars d = some text ∧ Json.isNumber text = true

/-! ## Escaping -/

/-- The `char` that `append_json_escaped` writes for a byte. -/
def escapeUnit (ch : UInt8) : Json.StringUnit :=
  if ch < 0x20 ∧ ch ≠ 0x08 ∧ ch ≠ 0x0c ∧ ch ≠ '\n'.byte ∧ ch ≠ '\r'.byte ∧ ch ≠ '\t'.byte then
    .code ch.toNat
  else .byte ch

theorem hex4_kHexDigits_ofNat : ∀ n < 32,
    Json.hex4 '0'.byte '0'.byte (kHexDigits (UInt8.ofNat n >>> 4 &&& 0x0f))
      (kHexDigits (UInt8.ofNat n &&& 0x0f)) = some n := by decide

theorem unitText_jsonEscape (ch : UInt8) : Json.UnitText (escapeUnit ch) (jsonEscape ch) := by
  by_cases hquote : ch = '"'.byte
  · subst hquote
    exact .escape rfl
  by_cases hbackslash : ch = '\\'.byte
  · subst hbackslash
    exact .escape rfl
  by_cases hb : ch = 0x08
  · subst hb
    exact .escape rfl
  by_cases hf : ch = 0x0c
  · subst hf
    exact .escape rfl
  by_cases hn : ch = '\n'.byte
  · subst hn
    exact .escape rfl
  by_cases hr : ch = '\r'.byte
  · subst hr
    exact .escape rfl
  by_cases ht : ch = '\t'.byte
  · subst ht
    exact .escape rfl
  rw [jsonEscape, if_neg hquote, if_neg hbackslash, if_neg hb, if_neg hf, if_neg hn, if_neg hr,
    if_neg ht, escapeUnit]
  by_cases hlt : ch < 0x20
  · rw [if_pos hlt, if_pos ⟨hlt, hb, hf, hn, hr, ht⟩]
    have hhex := hex4_kHexDigits_ofNat ch.toNat (UInt8.lt_iff_toNat_lt.mp hlt)
    rw [UInt8.ofNat_toNat] at hhex
    exact .unicode hhex
  · rw [if_neg hlt, if_neg fun h => hlt h.1]
    exact .literal (UInt8.not_lt.mp hlt) hquote hbackslash

theorem utf8_of_lt {ch : UInt8} (h : ch < 0x20) : Json.utf8 ch.toNat = [ch] := by
  have hlt : ch.toNat < 32 := UInt8.lt_iff_toNat_lt.mp h
  rw [Json.utf8, if_pos (by omega), UInt8.ofNat_toNat]

theorem decodeUnits_escapeUnit (ch : UInt8) (us : List Json.StringUnit) :
    Json.decodeUnits (escapeUnit ch :: us) = ch :: Json.decodeUnits us := by
  rw [escapeUnit]
  split
  case isTrue h =>
    have hlt : ch.toNat < 32 := UInt8.lt_iff_toNat_lt.mp h.1
    have hleading : Json.isLeading ch.toNat = false := by
      rw [Json.isLeading, Bool.and_eq_false_iff, decide_eq_false_iff_not]
      exact .inl (by omega)
    rw [Json.decodeUnits_code hleading, utf8_of_lt h.1, List.singleton_append]
  case isFalse => rfl

theorem appendJsonEscaped_eq (value output : Bytes) :
    appendJsonEscaped value output = output ++ value.flatMap jsonEscape := by
  rw [appendJsonEscaped]
  induction value generalizing output with
  | nil => rw [List.flatMap_nil, List.append_nil, List.foldl_nil]
  | cons ch value ih => rw [List.foldl_cons, ih, List.flatMap_cons, List.append_assoc]

/-- A byte string as `append_json_string` writes it. -/
def quoted (value : Bytes) : Bytes := '"'.byte :: value.flatMap jsonEscape ++ ['"'.byte]

theorem appendJsonString_eq (value output : Bytes) :
    appendJsonString value output = output ++ quoted value := by
  rw [appendJsonString, appendJsonEscaped_eq, quoted, List.append_assoc, List.append_assoc,
    List.singleton_append, List.cons_append]

/-- A byte string that was escaped decodes to itself. -/
theorem stringText_quoted (value : Bytes) : Json.StringText value (quoted value) :=
  .flatMap (fun ch _ => unitText_jsonEscape ch) decodeUnits_escapeUnit

/-! ## Values -/

theorem appendFieldValueJson_eq (fmt : DoubleFormat D) (value : FieldValue D) (output : Bytes) :
    appendFieldValueJson fmt value output = output ++ value.toJson fmt := by
  cases value with
  | null => rfl
  | bool value => rfl
  | int64 value => rfl
  | uint64 value => rfl
  | double value =>
    rw [FieldValue.toJson, appendFieldValueJson, appendFieldValueJson]
    split
    case isTrue =>
      cases fmt.toChars value with
      | none => rfl
      | some text => rfl
    case isFalse => rfl
  | string value =>
    rw [FieldValue.toJson, appendFieldValueJson, appendFieldValueJson, appendJsonString_eq,
      appendJsonString_eq, List.nil_append]

/-- `to_json(value)` is a text of the value. -/
theorem FieldValue.derives {fmt : DoubleFormat D} (hfmt : fmt.WritesNumbers)
    (value : FieldValue D) : Json.Derives (.value (value.json fmt)) (value.toJson fmt) := by
  cases value with
  | null => exact .null
  | bool value =>
    cases value with
    | false => exact .false
    | true => exact .true
  | int64 value => exact .number (Json.isNumber_integer value.toInt)
  | uint64 value => exact .number (Json.isNumber_natural value.toNat)
  | double value =>
    rw [FieldValue.json, FieldValue.toJson, appendFieldValueJson]
    split
    case isTrue hfinite =>
      obtain ⟨text, htext, hnumber⟩ := hfmt value hfinite
      rw [htext]
      exact .number hnumber
    case isFalse => exact .null
  | string value =>
    rw [FieldValue.toJson, appendFieldValueJson, appendJsonString_eq]
    exact .string (stringText_quoted value)

/-! ## Objects -/

/-- The members `ms` of an object that begins behind `start` have been written. -/
inductive ObjectOutput.Writes (start : Bytes) : List (Bytes × Json) → ObjectOutput → Prop where
  | nothing : Writes start [] ⟨start ++ ['{'.byte], true⟩
  | members {ms : List (Bytes × Json)} {text : Bytes} (h : Json.Derives (.members ms) text) :
    Writes start ms ⟨start ++ '{'.byte :: text, false⟩

namespace ObjectOutput

variable {start : Bytes} {ms : List (Bytes × Json)} {w : ObjectOutput}

/-- **The text of a member, behind a comma unless it is the first, writes the member.** -/
theorem Writes.append (h : w.Writes start ms) {m : Bytes × Json} {text : Bytes}
    (hm : Json.MemberText m text) : Writes start (ms ++ [m])
      ⟨(if w.first then w.output else w.output ++ [','.byte]) ++ text, false⟩ := by
  cases h with
  | nothing =>
    have hwrites : Writes start _ _ := .members hm.derives
    rw [if_pos rfl]
    simpa only [List.append_assoc, List.cons_append, List.nil_append] using hwrites
  | members h =>
    have hwrites : Writes start _ _ := .members (h.membersConcat hm)
    rw [if_neg Bool.false_ne_true]
    simpa only [List.append_assoc, List.cons_append, List.nil_append] using hwrites

/-- A key and the text of a value write a member. -/
theorem Writes.member (h : w.Writes start ms) (key : Bytes) {v : Json} {text : Bytes}
    (hv : Json.Derives (.value v) text) :
    Writes start (ms ++ [(key, v)]) ⟨w.appendKey key ++ text, false⟩ := by
  have hwrites := h.append (.colon (stringText_quoted key) hv)
  rw [appendKey, appendJsonString_eq]
  simpa only [List.append_assoc, List.cons_append, List.nil_append] using hwrites

theorem Writes.appendNamedString (h : w.Writes start ms) (key value : Bytes) :
    (w.appendNamedString key value).Writes start (ms ++ [(key, .string value)]) := by
  rw [ObjectOutput.appendNamedString, appendJsonString_eq]
  exact h.member key (.string (stringText_quoted value))

theorem Writes.appendOptionalString (h : w.Writes start ms) (key : Bytes) (value : Option Bytes) :
    (w.appendOptionalString key value).Writes start (ms ++ optionalMember key value) := by
  cases value with
  | none =>
    rw [optionalMember, Option.toList_none, List.map_nil, List.append_nil]
    exact h
  | some value => exact h.appendNamedString key value

theorem Writes.appendLocation (h : w.Writes start ms) (location : Option SourceLocation) :
    (w.appendLocation location).Writes start
      (ms ++ location.elim [] SourceLocation.members) := by
  cases location with
  | none =>
    rw [Option.elim_none, List.append_nil]
    exact h
  | some location =>
    have hline := (h.appendNamedString (ascii "file") location.fileName).member (ascii "line")
      (.number (Json.isNumber_natural location.line.toNat))
    have hfunction := hline.appendNamedString (ascii "function") location.functionName
    rwa [List.append_assoc, List.append_assoc] at hfunction

/-- The closing brace makes an object of the members. -/
theorem Writes.close (h : w.Writes start ms) :
    ∃ text, w.output ++ ['}'.byte] = start ++ text ∧ Json.Derives (.value (.object ms)) text := by
  cases h with
  | nothing =>
    exact ⟨['{'.byte, '}'.byte], List.append_assoc .., .emptyObject Json.ws_nil⟩
  | members h => exact ⟨_, List.append_assoc .., .object Json.ws_nil h⟩

end ObjectOutput

/-- `append_fields_object` writes an object that lists the fields. -/
theorem appendFieldsObject_derives {fmt : DoubleFormat D} (hfmt : fmt.WritesNumbers)
    (fields : List (Field D)) (output : Bytes) :
    ∃ text, appendFieldsObject fmt fields output = output ++ text ∧
      Json.Derives (.value (.object (fields.map (Field.member fmt)))) text := by
  have hfold : ∀ (fields : List (Field D)) (ms : List (Bytes × Json)) (w : ObjectOutput),
      w.Writes output ms →
      (fields.foldl (fun (w : ObjectOutput) entry =>
        ⟨appendFieldValueJson fmt entry.value (w.appendKey entry.key), false⟩) w).Writes output
          (ms ++ fields.map (Field.member fmt)) := by
    intro fields
    induction fields with
    | nil =>
      intro ms w h
      rw [List.map_nil, List.append_nil]
      exact h
    | cons entry fields ih =>
      intro ms w h
      have hentry := h.member entry.key (entry.value.derives hfmt)
      rw [← appendFieldValueJson_eq] at hentry
      have hrest := ih _ _ hentry
      rwa [List.append_assoc] at hrest
  exact (hfold fields [] _ .nothing).close

theorem ObjectOutput.Writes.appendNamedObject {fmt : DoubleFormat D} (hfmt : fmt.WritesNumbers)
    {start : Bytes} {ms : List (Bytes × Json)} {w : ObjectOutput} (h : w.Writes start ms)
    (key : Bytes) (fields : List (Field D)) :
    (w.appendNamedObject fmt key fields).Writes start
      (ms ++ [(key, .object (fields.map (Field.member fmt)))]) := by
  obtain ⟨text, heq, hobject⟩ := appendFieldsObject_derives hfmt fields (w.appendKey key)
  rw [ObjectOutput.appendNamedObject, heq]
  exact h.member key hobject

/-- `to_json(event)` is a text of the document of the event. -/
theorem LogEvent.derives {fmt : DoubleFormat D} (hfmt : fmt.WritesNumbers) (event : LogEvent D) :
    Json.Derives (.value (.object (event.members fmt))) (event.toJson fmt) := by
  have hstart : ObjectOutput.Writes [] [] ⟨['{'.byte], true⟩ := .nothing
  have hfixed := ((((hstart.appendNamedString (ascii "@timestamp")
    (formatTimestamp event.timestamp)).appendNamedString (ascii "level")
    event.severity.toString).appendNamedString (ascii "logger")
    event.loggerName).appendNamedString (ascii "message") event.message).appendNamedString
    (ascii "thread_id") (formatThreadId event.threadId)
  have hoptional := (((hfixed.appendLocation event.location).appendOptionalString
    (ascii "trace_id") event.traceId).appendOptionalString (ascii "span_id")
    event.spanId).appendOptionalString (ascii "correlation_id") event.correlationId
  obtain ⟨text, heq, hobject⟩ :=
    (hoptional.appendNamedObject hfmt (ascii "fields") event.fields).close
  rw [LogEvent.toJson, heq]
  exact hobject

/-- **`to_json` is undone by parsing**: every string decodes to the event's own bytes, and
the members are those of the event, in order. -/
theorem parse_toJson {fmt : DoubleFormat D} (hfmt : fmt.WritesNumbers) (event : LogEvent D) :
    Json.parse (event.toJson fmt) = some (.object (event.members fmt)) :=
  (event.derives hfmt).parse

/-- The doubles 0.5 (`true`) and NaN (`false`). -/
def halfOrNan : DoubleFormat Bool where
  isFinite := id
  toChars d := some (if d then ascii "0.5" else ascii "nan")

theorem halfOrNan_writesNumbers : halfOrNan.WritesNumbers := by
  intro d hd
  cases d with
  | false => cases hd
  | true => exact ⟨ascii "0.5", rfl, rfl⟩

/-- An event whose strings try to leave their quotes. -/
def quotesEvent : LogEvent Bool where
  severity := .error
  loggerName := ascii "a\"b\\"
  message := ascii "\",\"level\":\"off\n" ++ [0x00, 0x1f, 0xff]
  timestamp := 0
  threadId := ⟨ascii "140"⟩
  location := some ⟨ascii "main.cpp", 7, ascii "main"⟩
  fields := [⟨ascii "\x7d", .string (ascii "\x7b")⟩, ⟨ascii "x", .double true⟩,
    ⟨ascii "x", .double false⟩]
  traceId := none
  spanId := some []
  correlationId := none

theorem parse_toJson_quotesEvent : Json.parse (quotesEvent.toJson halfOrNan) =
    some (.object (quotesEvent.members halfOrNan)) :=
  parse_toJson halfOrNan_writesNumbers quotesEvent

/-! ## Looking up members -/

/-- Whichever member with the name a reader takes, it gets the value, and there is one. -/
def Json.Gives (members : List (Bytes × Json)) (name : Bytes) (value : Json) : Prop :=
  (name, value) ∈ members ∧ ∀ value', (name, value') ∈ members → value' = value

theorem Json.gives_of_mem {members : List (Bytes × Json)} (h : (members.map Prod.fst).Nodup)
    {name : Bytes} {value : Json} (hmem : (name, value) ∈ members) :
    Json.Gives members name value := by
  refine ⟨hmem, fun value' hmem' => ?_⟩
  exact congrArg Prod.snd (List.inj_on_of_nodup_map h hmem' hmem rfl)

/-- The names that `to_json` writes. -/
def eventNames : List Bytes :=
  [ascii "@timestamp", ascii "level", ascii "logger", ascii "message", ascii "thread_id",
    ascii "file", ascii "line", ascii "function", ascii "trace_id", ascii "span_id",
    ascii "correlation_id", ascii "fields"]

theorem sublist_optionalMember (key : Bytes) (value : Option Bytes) :
    ((optionalMember key value).map Prod.fst).Sublist [key] := by
  cases value with
  | none => exact List.nil_sublist _
  | some value => exact List.Sublist.refl _

/-- The members of an event have different names. -/
theorem LogEvent.nodup_members (fmt : DoubleFormat D) (event : LogEvent D) :
    ((event.members fmt).map Prod.fst).Nodup := by
  have hnames : eventNames.Nodup := by decide
  refine List.Nodup.sublist ?_ hnames
  have hlocation : ((event.location.elim [] SourceLocation.members).map Prod.fst).Sublist
      [ascii "file", ascii "line", ascii "function"] := by
    cases event.location with
    | none => exact List.nil_sublist _
    | some location => exact List.Sublist.refl _
  simp only [members, List.map_append]
  exact (((((List.Sublist.refl _).append hlocation).append
    (sublist_optionalMember _ event.traceId)).append
    (sublist_optionalMember _ event.spanId)).append
    (sublist_optionalMember _ event.correlationId)).append (List.Sublist.refl _)

/-- The fields of an event have different keys, and so the object `fields` of its JSON has
no name twice. -/
structure LogEvent.DistinctKeys (fmt : DoubleFormat D) (event : LogEvent D) : Prop where
  keys : (event.fields.map Field.key).Nodup
  json : ∃ members fields, Json.parse (event.toJson fmt) = some (.object members) ∧
    Json.Gives members (ascii "fields") (.object fields) ∧ (fields.map Prod.fst).Nodup

/-- The object has the keys for names. -/
theorem LogEvent.distinctKeys_iff {fmt : DoubleFormat D} (hfmt : fmt.WritesNumbers)
    (event : LogEvent D) : event.DistinctKeys fmt ↔ (event.fields.map Field.key).Nodup := by
  refine ⟨fun h => h.keys, fun h => ⟨h, event.members fmt,
    event.fields.map (Field.member fmt), (event.derives hfmt).parse,
    Json.gives_of_mem (event.nodup_members fmt) ?_, ?_⟩⟩
  · exact List.mem_append_right _ (List.mem_singleton.mpr rfl)
  · rw [List.map_map]
    exact h

end Logspine
