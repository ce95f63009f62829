import Logspine.Sink

/-!
# `network_payloads.cpp`

The payloads of the network sinks. `make_gelf_payload` writes its object by hand: each
literal text ends one member and begins the next, so the proof cuts the literals at the
commas and braces.
-/

namespace Logspine

variable {D : Type}

/-- `make_tcp_json_lines_payload` -/
def makeTcpJsonLinesPayload (fmt : DoubleFormat D) (event : LogEvent D) : Bytes :=
  toJsonLinesRecord fmt event

/-! ## GELF -/

/-- What the standard library makes of a time point in seconds. -/
structure SecondsFormat (D : Type) where
  /-- `std::chrono::duration<double>` of nanoseconds -/
  seconds : ℤ → D
  /-- `std::to_string(double)` -/
  toString : D → Bytes

/-- `to_gelf_level` -/
def toGelfLevel : Level → ℕ
  | .trace => 7
  | .debug => 7
  | .info => 6
  | .warn => 4
  | .error => 3
  | .fatal => 2
  | .off => 1

/-- The text of the timestamp. -/
def gelfTimestamp (fmt : DoubleFormat D) (sec : SecondsFormat D) (timestamp : ℤ) : Bytes :=
  let seconds := sec.seconds timestamp
  if fmt.isFinite seconds then sec.toString seconds else ascii "0.0"

/-- What is appended for a field. -/
def appendGelfField (fmt : DoubleFormat D) (output : Bytes) (entry : Field D) : Bytes :=
  appendJsonEscaped entry.key (output ++ ascii ",\"_") ++ ascii "\":" ++ entry.value.toJson fmt

/-- `make_gelf_payload` -/
def makeGelfPayload (fmt : DoubleFormat D) (sec : SecondsFormat D) (event : LogEvent D)
    (sourceHost : Bytes) : Bytes :=
  let output := ascii "\x7b\"version\":\"1.1\",\"host\":\""
  let output := appendJsonEscaped sourceHost output
  let output := output ++ ascii "\",\"short_message\":\""
  let output := appendJsonEscaped event.message output
  let output := output ++ ascii "\",\"timestamp\":"
  let output := output ++ gelfTimestamp fmt sec event.timestamp
  let output := output ++ ascii ",\"level\":"
  let output := output ++ natural (toGelfLevel event.severity)
  let output := output ++ ascii ",\"_logger\":\""
  let output := appendJsonEscaped event.loggerName output
  let output := output ++ ['"'.byte]
  let output := event.fields.foldl (appendGelfField fmt) output
  output ++ ['}'.byte]

/-- The member of a field. -/
def Field.gelfMember (fmt : DoubleFormat D) (entry : Field D) : Bytes × Json :=
  ('_'.byte :: entry.key, entry.value.json fmt)

/-- The members of a GELF message, in order. -/
def LogEvent.gelfMembers (fmt : DoubleFormat D) (sec : SecondsFormat D) (event : LogEvent D)
    (sourceHost : Bytes) : List (Bytes × Json) :=
  [(ascii "version", .string (ascii "1.1")),
    (ascii "host", .string sourceHost),
    (ascii "short_message", .string event.message),
    (ascii "timestamp", .number (gelfTimestamp fmt sec event.timestamp)),
    (ascii "level", .number (natural (toGelfLevel event.severity))),
    (ascii "_logger", .string event.loggerName)] ++
  event.fields.map (Field.gelfMember fmt)

/-- A number in `%f` notation: a sign if it is negative, the digits of the whole part, a
point and six decimals. -/
inductive FixedNotation : Bytes → Prop where
  | positive (n : ℕ) {decimals : Bytes} (hlength : decimals.length = 6)
    (h : ∀ d ∈ decimals, isDigit d = true) : FixedNotation (natural n ++ '.'.byte :: decimals)
  | negative (n : ℕ) {decimals : Bytes} (hlength : decimals.length = 6)
    (h : ∀ d ∈ decimals, isDigit d = true) :
    FixedNotation ('-'.byte :: (natural n ++ '.'.byte :: decimals))

/-- What `std::to_string` owes for finite doubles: `%f` notation, with a point. -/
def SecondsFormat.WritesFixed (fmt : DoubleFormat D) (sec : SecondsFormat D) : Prop :=
  ∀ d, fmt.isFinite d = true → FixedNotation (sec.toString d)

theorem FixedNotation.isNumber {text : Bytes} (h : FixedNotation text) :
    Json.isNumber text = true := by
  have hne : ∀ {decimals : Bytes}, decimals.length = 6 → decimals ≠ [] := by
    rintro decimals hlength rfl
    cases hlength
  cases h with
  | positive n hlength h =>
    have hunsigned := Json.isUnsigned_fraction n (hne hlength) h
    obtain ⟨d, ds, heq, hd, -⟩ := natural_eq_cons n
    rw [heq, List.cons_append] at hunsigned ⊢
    have hminus : d ≠ '-'.byte := by
      rintro rfl
      cases hd
    rw [Json.isNumber, if_neg hminus]
    exact hunsigned
  | negative n hlength h =>
    rw [Json.isNumber, if_pos rfl]
    exact Json.isUnsigned_fraction n (hne hlength) h

theorem isNumber_gelfTimestamp {fmt : DoubleFormat D} {sec : SecondsFormat D}
    (hsec : sec.WritesFixed fmt) (timestamp : ℤ) :
    Json.isNumber (gelfTimestamp fmt sec timestamp) = true := by
  rw [gelfTimestamp]
  split
  case isTrue hfinite => exact (hsec _ hfinite).isNumber
  case isFalse => decide

/-- A field adds its member. -/
theorem derives_appendGelfField {fmt : DoubleFormat D} (hfmt : fmt.WritesNumbers)
    {ms : List (Bytes × Json)} {text : Bytes} (h : Json.Derives (.members ms) text)
    (entry : Field D) : ∃ text', Json.Derives (.members (ms ++ [entry.gelfMember fmt])) text' ∧
      appendGelfField fmt ('{'.byte :: text) entry = '{'.byte :: text' := by
  have hmember := h.membersConcat
    (.colon (stringText_quoted ('_'.byte :: entry.key)) (entry.value.derives hfmt))
  refine ⟨_, hmember, ?_⟩
  have hopen : ascii ",\"_" = ','.byte :: '"'.byte :: jsonEscape '_'.byte := by decide
  have hclose : ascii "\":" = ['"'.byte, ':'.byte] := by decide
  rw [appendGelfField, appendJsonEscaped_eq, hopen, hclose, quoted, List.flatMap_cons]
  simp only [List.append_assoc, List.cons_append, List.nil_append]

theorem derives_foldl_appendGelfField {fmt : DoubleFormat D} (hfmt : fmt.WritesNumbers)
    (fields : List (Field D)) {ms : List (Bytes × Json)} {text : Bytes}
    (h : Json.Derives (.members ms) text) :
    ∃ text', Json.Derives (.members (ms ++ fields.map (Field.gelfMember fmt))) text' ∧
      fields.foldl (appendGelfField fmt) ('{'.byte :: text) = '{'.byte :: text' := by
  induction fields generalizing ms text with
  | nil =>
    rw [List.map_nil, List.append_nil]
    exact ⟨text, h, rfl⟩
  | cons entry fields ih =>
    obtain ⟨next, hnext, heq⟩ := derives_appendGelfField hfmt h entry
    obtain ⟨text', htext, heq'⟩ := ih hnext
    rw [List.append_assoc] at htext
    refine ⟨text', htext, ?_⟩
    rw [List.foldl_cons, heq, heq']

theorem makeGelfPayload_derives {fmt : DoubleFormat D} (hfmt : fmt.WritesNumbers)
    {sec : SecondsFormat D} (hsec : sec.WritesFixed fmt) (event : LogEvent D)
    (sourceHost : Bytes) : ∃ text, makeGelfPayload fmt sec event sourceHost = '{'.byte :: text ∧
      Json.Derives (.value (.object (event.gelfMembers fmt sec sourceHost)))
        ('{'.byte :: text) := by
  have hquoted : ∀ value, Json.Derives (.value (.string value)) (quoted value) :=
    fun value => .string (stringText_quoted value)
  have hversion : Json.MemberText (ascii "version", .string (ascii "1.1")) _ :=
    .named (hquoted (ascii "1.1")) (by decide)
  have hhost : Json.MemberText (ascii "host", .string sourceHost) _ :=
    .named (hquoted sourceHost) (by decide)
  have hmessage : Json.MemberText (ascii "short_message", .string event.message) _ :=
    .named (hquoted event.message) (by decide)
  have htimestamp : Json.MemberText (ascii "timestamp", .number _) _ :=
    .named (.number (isNumber_gelfTimestamp hsec event.timestamp)) (by decide)
  have hlevel : Json.MemberText (ascii "level", .number _) _ :=
    .named (.number (Json.isNumber_natural (toGelfLevel event.severity))) (by decide)
  have hlogger : Json.MemberText (ascii "_logger", .string event.loggerName) _ :=
    .named (hquoted event.loggerName) (by decide)
  have hfixed := ((((hversion.derives.membersConcat hhost).membersConcat hmessage).membersConcat
    htimestamp).membersConcat hlevel).membersConcat hlogger
  obtain ⟨text, htext, heq⟩ := derives_foldl_appendGelfField hfmt event.fields hfixed
  refine ⟨text ++ ['}'.byte], ?_, htext.braces⟩
  -- the literals of the source, cut where members end and begin
  have hopen : ascii "\x7b\"version\":\"1.1\",\"host\":\"" = '{'.byte ::
      (Json.named (ascii "version") ++ quoted (ascii "1.1") ++
        ','.byte :: (Json.named (ascii "host") ++ ['"'.byte])) := by decide
  have hnext : ascii "\",\"short_message\":\"" = '"'.byte :: ','.byte ::
      (Json.named (ascii "short_message") ++ ['"'.byte]) := by decide
  have hnext' : ascii "\",\"timestamp\":" =
      '"'.byte :: ','.byte :: Json.named (ascii "timestamp") := by decide
  have hnext'' : ascii ",\"level\":" = ','.byte :: Json.named (ascii "level") := by decide
  have hlast : ascii ",\"_logger\":\"" =
      ','.byte :: (Json.named (ascii "_logger") ++ ['"'.byte]) := by decide
  rw [← List.cons_append, ← heq, makeGelfPayload]
  simp only [appendJsonEscaped_eq, hopen, hnext, hnext', hnext'', hlast, quoted,
    List.append_assoc, List.cons_append, List.nil_append]

theorem makeGelfPayload_parses {fmt : DoubleFormat D} (hfmt : fmt.WritesNumbers)
    {sec : SecondsFormat D} (hsec : sec.WritesFixed fmt) (event : LogEvent D)
    (sourceHost : Bytes) : Json.parse (makeGelfPayload fmt sec event sourceHost) =
      some (.object (event.gelfMembers fmt sec sourceHost)) := by
  obtain ⟨text, heq, hderives⟩ := makeGelfPayload_derives hfmt hsec event sourceHost
  rw [heq]
  exact hderives.parse

/-- **`make_gelf_payload` is undone by parsing**, and its first byte is a brace, so that it is
never taken for a chunk. -/
theorem parse_makeGelfPayload {fmt : DoubleFormat D} (hfmt : fmt.WritesNumbers)
    {sec : SecondsFormat D} (hsec : sec.WritesFixed fmt) (event : LogEvent D)
    (sourceHost : Bytes) :
    Json.parse (makeGelfPayload fmt sec event sourceHost) =
        some (.object (event.gelfMembers fmt sec sourceHost)) ∧
      (makeGelfPayload fmt sec event sourceHost).head? = some '{'.byte := by
  refine ⟨makeGelfPayload_parses hfmt hsec event sourceHost, ?_⟩
  obtain ⟨text, heq, -⟩ := makeGelfPayload_derives hfmt hsec event sourceHost
  rw [heq]
  rfl

/-- The seconds of the time point half a second after the epoch. -/
def halfSecond : SecondsFormat Bool where
  seconds _ := true
  toString _ := ascii "0.500000"

theorem halfSecond_writesFixed : halfSecond.WritesFixed halfOrNan := by
  intro d _
  have hdigits : (ascii "500000").all isDigit = true := by decide
  have hfixed := FixedNotation.positive 0 rfl (List.all_eq_true.mp hdigits)
  exact hfixed

/-- The event of the quotes, at that time point. -/
def halfSecondEvent : LogEvent Bool := { quotesEvent with timestamp := 500000000 }

theorem parse_makeGelfPayload_halfSecondEvent :
    Json.parse (makeGelfPayload halfOrNan halfSecond halfSecondEvent (ascii "h\"\n")) =
        some (.object (halfSecondEvent.gelfMembers halfOrNan halfSecond (ascii "h\"\n"))) ∧
      (makeGelfPayload halfOrNan halfSecond halfSecondEvent (ascii "h\"\n")).head? =
        some '{'.byte :=
  parse_makeGelfPayload halfOrNan_writesNumbers halfSecond_writesFixed halfSecondEvent
    (ascii "h\"\n")

/-! ### The names of the members -/

/-- The names that `make_gelf_payload` writes itself. -/
def gelfNames : List Bytes :=
  [ascii "version", ascii "host", ascii "short_message", ascii "timestamp", ascii "level",
    ascii "_logger"]

/-- Only one of them has the prefix. -/
theorem cons_mem_gelfNames_iff {key : Bytes} :
    '_'.byte :: key ∈ gelfNames ↔ key = ascii "logger" := by
  have hlogger : ascii "_logger" = '_'.byte :: ascii "logger" := by decide
  constructor
  · intro h
    have hhead : ∀ name ∈ gelfNames, name.head? = some '_'.byte → name = ascii "_logger" := by
      decide
    exact (List.cons_inj_right '_'.byte).mp ((hhead _ h rfl).trans hlogger)
  · rintro rfl
    decide

theorem LogEvent.map_fst_gelfMembers (fmt : DoubleFormat D) (sec : SecondsFormat D)
    (event : LogEvent D) (sourceHost : Bytes) :
    (event.gelfMembers fmt sec sourceHost).map Prod.fst =
      gelfNames ++ (event.fields.map Field.key).map ('_'.byte :: ·) := by
  rw [gelfMembers, List.map_append, List.map_map, List.map_map]
  rfl

/-- The names are distinct when the keys are and none of them is `logger`. -/
theorem LogEvent.nodup_gelfMembers_iff (fmt : DoubleFormat D) (sec : SecondsFormat D)
    {event : LogEvent D} (hkeys : (event.fields.map Field.key).Nodup) (sourceHost : Bytes) :
    ((event.gelfMembers fmt sec sourceHost).map Prod.fst).Nodup ↔
      ascii "logger" ∉ event.fields.map Field.key := by
  have hnames : gelfNames.Nodup := by decide
  have hcustom : ((event.fields.map Field.key).map ('_'.byte :: ·)).Nodup :=
    hkeys.map (List.cons_injective)
  rw [map_fst_gelfMembers, List.nodup_append']
  constructor
  · rintro ⟨-, -, hdisjoint⟩ hmem
    exact hdisjoint (cons_mem_gelfNames_iff.mpr rfl) (List.mem_map_of_mem hmem)
  · intro hlogger
    refine ⟨hnames, hcustom, fun name hname hname' => ?_⟩
    obtain ⟨key, hkey, rfl⟩ := List.mem_map.mp hname'
    rw [cons_mem_gelfNames_iff.mp hname] at hkey
    exact hlogger hkey

/-- The members of a payload are kept apart: their names are distinct, and by the name of a
field or of the logger a reader gets its value. -/
structure LogEvent.KeptApart (fmt : DoubleFormat D) (event : LogEvent D)
    (members : List (Bytes × Json)) : Prop where
  nodup : (members.map Prod.fst).Nodup
  field : ∀ entry ∈ event.fields,
    Json.Gives members ('_'.byte :: entry.key) (entry.value.json fmt)
  logger : Json.Gives members (ascii "_logger") (.string event.loggerName)

/-- **The members of a GELF payload are kept apart exactly when no field has the key
`logger`**, for events whose fields have distinct keys. -/
theorem makeGelfPayload_keptApart_iff {fmt : DoubleFormat D} (hfmt : fmt.WritesNumbers)
    {sec : SecondsFormat D} (hsec : sec.WritesFixed fmt) {event : LogEvent D}
    (hkeys : (event.fields.map Field.key).Nodup) (sourceHost : Bytes) :
    ∃ members, Json.parse (makeGelfPayload fmt sec event sourceHost) = some (.object members) ∧
      (event.KeptApart fmt members ↔ ascii "logger" ∉ event.fields.map Field.key) := by
  have hiff := event.nodup_gelfMembers_iff fmt sec hkeys sourceHost
  refine ⟨_, makeGelfPayload_parses hfmt hsec event sourceHost,
    fun h => hiff.mp h.nodup, fun h => ?_⟩
  have hnodup := hiff.mpr h
  refine ⟨hnodup, fun entry hentry => Json.gives_of_mem hnodup ?_,
    Json.gives_of_mem hnodup ?_⟩
  · exact List.mem_append_right _ (List.mem_map_of_mem hentry)
  · refine List.mem_append_left _ ?_
    simp only [List.mem_cons, true_or, or_true]

/-- An event with a field `logger`. -/
def loggerFieldEvent : LogEvent Bool :=
  { halfSecondEvent with fields := [⟨ascii "logger", .string (ascii "db")⟩] }

/-- The field and the logger's name are both written as `_logger`. -/
theorem not_keptApart_loggerFieldEvent :
    (loggerFieldEvent.fields.map Field.key).Nodup ∧
      ∃ members, Json.parse (makeGelfPayload halfOrNan halfSecond loggerFieldEvent (ascii "h")) =
        some (.object members) ∧ ¬ loggerFieldEvent.KeptApart halfOrNan members := by
  refine ⟨List.nodup_singleton _, _, makeGelfPayload_parses halfOrNan_writesNumbers
    halfSecond_writesFixed loggerFieldEvent (ascii "h"), fun h => ?_⟩
  exact absurd h.nodup (by decide)

/-- An event with a field of another key. -/
def userFieldEvent : LogEvent Bool :=
  { halfSecondEvent with fields := [⟨ascii "user", .null⟩] }

theorem makeGelfPayload_keptApart_iff_userFieldEvent :
    ∃ members, Json.parse (makeGelfPayload halfOrNan halfSecond userFieldEvent (ascii "h")) =
        some (.object members) ∧
      (userFieldEvent.KeptApart halfOrNan members ↔
        ascii "logger" ∉ userFieldEvent.fields.map Field.key) :=
  makeGelfPayload_keptApart_iff halfOrNan_writesNumbers halfSecond_writesFixed (by decide)
    (ascii "h")

end Logspine
