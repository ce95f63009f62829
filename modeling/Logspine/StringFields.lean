import Logspine.NetworkPayloads
import Logspine.OtlpHttpSink

/-!
# A string field in the three encodings

What a reader gets for a field of an event from `to_json`, from `make_gelf_payload` and from
`make_otlp_json`: the first two give a string as it is, the third gives its JSON text, with
the quotes and the escapes. The string of the resource and of the body, which
`make_otlp_json` writes in the same kind of value, are given as they are too.
-/

/-! ## Reading JSON values -/

namespace Json

/-- The value of the first member with the name. -/
def member (name : Bytes) : Json → Option Json
  | object members => members.lookup name
  | null | bool _ | number _ | string _ | array _ => none

/-- The elements of an array. -/
def elements? : Json → Option (List Json)
  | array elements => some elements
  | null | bool _ | number _ | string _ | object _ => none

/-- The first element of an array. -/
def first (v : Json) : Option Json := v.elements?.bind List.head?

/-- The bytes of a string. -/
def string? : Json → Option Bytes
  | string text => some text
  | null | bool _ | number _ | array _ | object _ => none

end Json

namespace Logspine

variable {D : Type}

/-! ## What the readers get -/

/-- The string for a key from `to_json(event)`: a member of `fields`. -/
def jsonField (text key : Bytes) : Option Bytes := do
  let document ← Json.parse text
  let fields ← document.member (ascii "fields")
  let value ← fields.member key
  value.string?

/-- The string for a key from a GELF message: a member with a prefix. -/
def gelfField (text key : Bytes) : Option Bytes := do
  let document ← Json.parse text
  let value ← document.member ('_'.byte :: key)
  value.string?

/-- The attribute has the key. -/
def hasKey (key : Bytes) (attr : Json) : Bool :=
  (attr.member (ascii "key")).bind Json.string? == some key

/-- The string for a key from an OTLP document: the value of an attribute of the log record. -/
def otlpField (text key : Bytes) : Option Bytes := do
  let document ← Json.parse text
  let resourceLog ← (← document.member (ascii "resourceLogs")).first
  let scopeLog ← (← resourceLog.member (ascii "scopeLogs")).first
  let record ← (← scopeLog.member (ascii "logRecords")).first
  let attributes ← (← record.member (ascii "attributes")).elements?
  let attr ← attributes.find? (hasKey key)
  let value ← attr.member (ascii "value")
  let stringValue ← value.member (ascii "stringValue")
  stringValue.string?

theorem Json.member_of_gives {members : List (Bytes × Json)} {name : Bytes} {value : Json}
    (h : Json.Gives members name value) : (Json.object members).member name = some value := by
  cases hlookup : members.lookup name with
  | none =>
    have hne := List.lookup_eq_none_iff.mp hlookup (name, value) h.1
    exact absurd rfl (bne_iff_ne.mp hne)
  | some value' =>
    obtain ⟨before, after, heq, -⟩ := List.lookup_eq_some_iff.mp hlookup
    have hmem : (name, value') ∈ members := heq ▸ List.mem_append_right _ List.mem_cons_self
    rw [Json.member, hlookup, h.2 value' hmem]

variable {fmt : DoubleFormat D} {event : LogEvent D} {entry : Field D}

theorem jsonField_toJson (hfmt : fmt.WritesNumbers)
    (hkeys : (event.fields.map Field.key).Nodup) (hentry : entry ∈ event.fields) :
    jsonField (event.toJson fmt) entry.key = (entry.value.json fmt).string? := by
  have hfields : Json.Gives (event.members fmt) (ascii "fields")
      (.object (event.fields.map (Field.member fmt))) :=
    Json.gives_of_mem (event.nodup_members fmt)
      (List.mem_append_right _ (List.mem_singleton.mpr rfl))
  have hvalue : Json.Gives (event.fields.map (Field.member fmt)) entry.key
      (entry.value.json fmt) := by
    refine Json.gives_of_mem ?_ (List.mem_map_of_mem hentry)
    rw [List.map_map]
    exact hkeys
  rw [jsonField, (event.derives hfmt).parse]
  simp only [Option.bind_eq_bind, Option.bind_some, Json.member_of_gives hfields,
    Json.member_of_gives hvalue]

theorem gelfField_makeGelfPayload (hfmt : fmt.WritesNumbers) {sec : SecondsFormat D}
    (hsec : sec.WritesFixed fmt) (hkeys : (event.fields.map Field.key).Nodup)
    (hlogger : ascii "logger" ∉ event.fields.map Field.key) (hentry : entry ∈ event.fields)
    (sourceHost : Bytes) :
    gelfField (makeGelfPayload fmt sec event sourceHost) entry.key =
      (entry.value.json fmt).string? := by
  have hvalue : Json.Gives (event.gelfMembers fmt sec sourceHost) ('_'.byte :: entry.key)
      (entry.value.json fmt) := by
    refine Json.gives_of_mem ((event.nodup_gelfMembers_iff fmt sec hkeys sourceHost).mpr hlogger) ?_
    exact List.mem_append_right _ (List.mem_map_of_mem hentry)
  rw [gelfField, makeGelfPayload_parses hfmt hsec]
  simp only [Option.bind_eq_bind, Option.bind_some, Json.member_of_gives hvalue]

theorem hasKey_stringAttribute (key key' value : Bytes) :
    hasKey key (stringAttribute key' value) = (key' == key) := by
  rw [hasKey]
  rfl

/-- The first attribute with the key of a field is the one of the field. -/
theorem find?_stringAttribute (hkeys : (event.fields.map Field.key).Nodup)
    (hentry : entry ∈ event.fields) :
    (event.fields.map fun entry => stringAttribute entry.key (entry.value.toJson fmt)).find?
        (hasKey entry.key) =
      some (stringAttribute entry.key (entry.value.toJson fmt)) := by
  rw [List.find?_map]
  have hfind : event.fields.find?
      (hasKey entry.key ∘ fun e => stringAttribute e.key (e.value.toJson fmt)) = some entry := by
    cases hfound : event.fields.find?
        (hasKey entry.key ∘ fun e => stringAttribute e.key (e.value.toJson fmt)) with
    | none =>
      have hnone := List.find?_eq_none.mp hfound entry hentry
      rw [Function.comp_apply, hasKey_stringAttribute] at hnone
      exact absurd (beq_self_eq_true entry.key) hnone
    | some found =>
      have hkey := List.find?_some hfound
      rw [Function.comp_apply, hasKey_stringAttribute, beq_iff_eq] at hkey
      rw [List.inj_on_of_nodup_map hkeys (List.mem_of_find?_eq_some hfound) hentry hkey]
  rw [hfind, Option.map_some]

/-- The names that `make_otlp_json` writes for a log record. -/
def recordNames : List Bytes :=
  [ascii "timeUnixNano", ascii "severityText", ascii "severityNumber", ascii "traceId",
    ascii "spanId", ascii "body", ascii "attributes"]

/-- The members of a log record have different names. -/
theorem LogEvent.nodup_otlpMembers (fmt : DoubleFormat D) (event : LogEvent D) :
    ((event.otlpMembers fmt).map Prod.fst).Nodup := by
  have hnames : recordNames.Nodup := by decide
  refine List.Nodup.sublist ?_ hnames
  rw [otlpMembers]
  simp only [List.map_append]
  refine ((((List.Sublist.refl _).append (sublist_optionalMember _ event.traceId)).append
    (sublist_optionalMember _ event.spanId)).append (List.Sublist.refl _)).append ?_
  split
  case isTrue => exact List.nil_sublist [ascii "attributes"]
  case isFalse => exact List.Sublist.refl [ascii "attributes"]

theorem otlpField_makeOtlpJson (hkeys : (event.fields.map Field.key).Nodup)
    (hentry : entry ∈ event.fields) (serviceName : Bytes) :
    otlpField (makeOtlpJson fmt event serviceName) entry.key =
      some (entry.value.toJson fmt) := by
  have hne : event.fields.isEmpty = false := by
    rw [List.isEmpty_eq_false_iff]
    exact List.ne_nil_of_mem hentry
  have hattributes : Json.Gives (event.otlpMembers fmt) (ascii "attributes")
      (.array (event.fields.map fun entry =>
        stringAttribute entry.key (entry.value.toJson fmt))) := by
    refine Json.gives_of_mem (event.nodup_otlpMembers fmt) (List.mem_append_right _ ?_)
    rw [hne]
    exact List.mem_cons_self
  rw [otlpField, (makeOtlpJson_derives fmt event serviceName).parse]
  calc ((Json.object (event.otlpMembers fmt)).member (ascii "attributes")).bind (fun v =>
        v.elements?.bind fun attributes => (attributes.find? (hasKey entry.key)).bind fun attr =>
          (attr.member (ascii "value")).bind fun value =>
            (value.member (ascii "stringValue")).bind Json.string?)
      = (some (stringAttribute entry.key (entry.value.toJson fmt))).bind fun attr =>
          (attr.member (ascii "value")).bind fun value =>
            (value.member (ascii "stringValue")).bind Json.string? := by
        rw [Json.member_of_gives hattributes, Option.bind_some, Json.elements?, Option.bind_some,
          find?_stringAttribute hkeys hentry]
    _ = some (entry.value.toJson fmt) := rfl

/-! ## Strings -/

/-- The JSON text of a string is longer than the string. -/
theorem quoted_ne (value : Bytes) : quoted value ≠ value := by
  have hescape : ∀ ch, 1 ≤ (jsonEscape ch).length := fun ch =>
    List.length_pos_of_ne_nil (unitText_jsonEscape ch).ne_nil
  have hlength : ∀ value : Bytes, value.length ≤ (value.flatMap jsonEscape).length := by
    intro value
    induction value with
    | nil => exact le_rfl
    | cons ch value ih =>
      rw [List.flatMap_cons, List.length_append, List.length_cons]
      have hch := hescape ch
      omega
  intro heq
  have hquoted := congrArg List.length heq
  rw [quoted, List.length_append, List.length_cons, List.length_singleton] at hquoted
  have hle := hlength value
  omega

/-- The three encoders agree on the string fields of the event: each gives the same string. -/
def LogEvent.StringFieldsAgree (fmt : DoubleFormat D) (sec : SecondsFormat D) (event : LogEvent D)
    (sourceHost serviceName : Bytes) : Prop :=
  ∀ entry ∈ event.fields, ∀ value, entry.value = .string value →
    ∃ s, jsonField (event.toJson fmt) entry.key = some s ∧
      gelfField (makeGelfPayload fmt sec event sourceHost) entry.key = some s ∧
      otlpField (makeOtlpJson fmt event serviceName) entry.key = some s

/-- What the readers get for a string: its bytes, and from OTLP its JSON text. -/
theorem stringField_decoded (hfmt : fmt.WritesNumbers) {sec : SecondsFormat D}
    (hsec : sec.WritesFixed fmt) (hkeys : (event.fields.map Field.key).Nodup)
    (hlogger : ascii "logger" ∉ event.fields.map Field.key) (hentry : entry ∈ event.fields)
    {value : Bytes} (hvalue : entry.value = .string value) (sourceHost serviceName : Bytes) :
    jsonField (event.toJson fmt) entry.key = some value ∧
      gelfField (makeGelfPayload fmt sec event sourceHost) entry.key = some value ∧
      otlpField (makeOtlpJson fmt event serviceName) entry.key = some (quoted value) := by
  have hjson : (entry.value.json fmt).string? = some value := by
    rw [hvalue]
    rfl
  have htext : entry.value.toJson fmt = quoted value := by
    rw [hvalue, FieldValue.toJson, appendFieldValueJson, appendJsonString_eq, List.nil_append]
  refine ⟨?_, ?_, ?_⟩
  · rw [jsonField_toJson hfmt hkeys hentry, hjson]
  · rw [gelfField_makeGelfPayload hfmt hsec hkeys hlogger hentry, hjson]
  · rw [otlpField_makeOtlpJson hkeys hentry, htext]

/-- A string field keeps the encoders apart. -/
theorem LogEvent.not_stringFieldsAgree (hfmt : fmt.WritesNumbers) {sec : SecondsFormat D}
    (hsec : sec.WritesFixed fmt) (hkeys : (event.fields.map Field.key).Nodup)
    (hlogger : ascii "logger" ∉ event.fields.map Field.key) (hentry : entry ∈ event.fields)
    {value : Bytes} (hvalue : entry.value = .string value) (sourceHost serviceName : Bytes) :
    ¬ event.StringFieldsAgree fmt sec sourceHost serviceName := by
  intro hagree
  obtain ⟨s, hjson, -, hotlp⟩ := hagree entry hentry value hvalue
  obtain ⟨hjson', -, hotlp'⟩ := stringField_decoded hfmt hsec hkeys hlogger hentry hvalue
    sourceHost serviceName
  rw [hjson', Option.some.injEq] at hjson
  rw [hotlp', Option.some.injEq] at hotlp
  exact quoted_ne value (hotlp.trans hjson.symm)

/-- **The three encoders agree on the string fields of an event exactly when it has none**: as
soon as there is one, `make_otlp_json` gives its JSON text in place of the string. -/
theorem stringFieldsAgree_iff (hfmt : fmt.WritesNumbers) {sec : SecondsFormat D}
    (hsec : sec.WritesFixed fmt) (hkeys : (event.fields.map Field.key).Nodup)
    (hlogger : ascii "logger" ∉ event.fields.map Field.key) (sourceHost serviceName : Bytes) :
    event.StringFieldsAgree fmt sec sourceHost serviceName ↔
      ∀ entry ∈ event.fields, ∀ value, entry.value ≠ .string value := by
  constructor
  · intro hagree entry hentry value hvalue
    exact event.not_stringFieldsAgree hfmt hsec hkeys hlogger hentry hvalue sourceHost serviceName
      hagree
  · intro hnone entry hentry value hvalue
    exact absurd hvalue (hnone entry hentry value)

/-- An event with a string field among others. -/
def mixedFieldsEvent : LogEvent Bool :=
  { halfSecondEvent with
    fields := [⟨ascii "attempt", .null⟩, ⟨ascii "role", .string (ascii "admin")⟩,
      ⟨ascii "ratio", .double true⟩] }

theorem stringFieldsAgree_iff_mixedFieldsEvent :
    mixedFieldsEvent.StringFieldsAgree halfOrNan halfSecond (ascii "h") (ascii "s") ↔
      ∀ entry ∈ mixedFieldsEvent.fields, ∀ value, entry.value ≠ .string value :=
  stringFieldsAgree_iff halfOrNan_writesNumbers halfSecond_writesFixed (by decide) (by decide)
    (ascii "h") (ascii "s")

/-- An event with a string field. -/
def roleFieldEvent : LogEvent Bool :=
  { halfSecondEvent with fields := [⟨ascii "role", .string (ascii "admin")⟩] }

/-- A reader of the OTLP document gets `"admin"`, with the quotes. -/
theorem not_stringFieldsAgree_roleFieldEvent :
    (roleFieldEvent.fields.map Field.key).Nodup ∧
      ascii "logger" ∉ roleFieldEvent.fields.map Field.key ∧
      ¬ roleFieldEvent.StringFieldsAgree halfOrNan halfSecond (ascii "h") (ascii "s") := by
  have hkeys : (roleFieldEvent.fields.map Field.key).Nodup := List.nodup_singleton _
  have hlogger : ascii "logger" ∉ roleFieldEvent.fields.map Field.key := by decide
  refine ⟨hkeys, hlogger, ?_⟩
  exact roleFieldEvent.not_stringFieldsAgree halfOrNan_writesNumbers halfSecond_writesFixed hkeys
    hlogger List.mem_cons_self rfl (ascii "h") (ascii "s")

end Logspine
