import Logspine.EventTexts
import Logspine.Mdc
import Logspine.Utf8

/-!
# Loggers

`logger::log` and the event that `logger::dispatch` hands to its dispatcher: long messages
are cut after `max_message_length` bytes, and of the fields, the context's included, only
the first `max_fields_count` are kept. The cut takes no account of characters: the event is
valid UTF-8 exactly when no continuation byte comes right after it (`valid_dispatch_iff`). The
context's fields are appended whatever their keys (`distinctKeys_dispatch_iff`).
-/

namespace Logspine

variable {D : Type}

/-- `is_enabled_for` -/
def isEnabledFor (minimumLevel severity : Level) : Bool :=
  minimumLevel ≠ .off && severity ≠ .off && minimumLevel.index ≤ severity.index

/-- `logger`, without its dispatcher -/
structure Logger where
  /-- `name_` -/
  name : Bytes
  /-- `minimum_level_` -/
  minimumLevel : Level

namespace Logger

/-- `enabled` -/
def enabled (logger : Logger) (value : Level) : Bool := isEnabledFor logger.minimumLevel value

/-- `set_level` -/
def setLevel (logger : Logger) (value : Level) : Logger := { logger with minimumLevel := value }

/-- `max_message_length` -/
def maxMessageLength : ℕ := 32768

/-- `max_fields_count` -/
def maxFieldsCount : ℕ := 64

/-- What is put in place of the rest of a message. -/
def truncationMark : Bytes := ascii "... [truncated]"

/-- The message of the event. -/
def eventMessage (message : Bytes) : Bytes :=
  if message.length > maxMessageLength then message.take maxMessageLength ++ truncationMark
  else message

/-- The fields of the event: those of the call and the context's, up to the limit. -/
def eventFields (fields : List (Field D)) (mdc : Mdc D) : List (Field D) :=
  let mdcFields := mdc.getAll
  let fields := if mdcFields.isEmpty then fields else fields ++ mdcFields
  if fields.length > maxFieldsCount then
    fields.take maxFieldsCount ++ [⟨ascii "_truncated_fields", .bool true⟩]
  else fields

/-- `dispatch`, called in the thread `threadId` with the context `mdc` when the system clock
shows `now`: the event handed to the dispatcher. -/
def dispatch (logger : Logger) (mdc : Mdc D) (threadId : ThreadId) (now : ℤ) (severity : Level)
    (message : Bytes) (fields : List (Field D)) (location : SourceLocation) : LogEvent D where
  severity := severity
  loggerName := logger.name
  message := eventMessage message
  timestamp := now
  threadId := threadId
  location := some location
  fields := eventFields fields mdc
  traceId := none
  spanId := none
  correlationId := none

/-- `log`: the event handed to the dispatcher, if the level is enabled. -/
def log (logger : Logger) (mdc : Mdc D) (threadId : ThreadId) (now : ℤ) (severity : Level)
    (message : Bytes) (fields : List (Field D)) (location : SourceLocation) :
    Option (LogEvent D) :=
  if logger.enabled severity then
    some (logger.dispatch mdc threadId now severity message fields location)
  else none

/-- Each field of an event is one of the call, one of the context, or the mark of the limit. -/
theorem mem_eventFields {fields : List (Field D)} {mdc : Mdc D} {entry : Field D}
    (h : entry ∈ eventFields fields mdc) : entry ∈ fields ∨ entry ∈ mdc.getAll ∨
      entry = ⟨ascii "_truncated_fields", .bool true⟩ := by
  rw [eventFields] at h
  generalize hjoined : (if mdc.getAll.isEmpty then fields else fields ++ mdc.getAll) = joined at h
  have hall : ∀ entry ∈ joined, entry ∈ fields ∨ entry ∈ mdc.getAll := by
    rw [← hjoined]
    intro entry h
    split at h
    case isTrue => exact .inl h
    case isFalse => exact List.mem_append.mp h
  split at h
  case isTrue =>
    rcases List.mem_append.mp h with h | h
    · exact (hall entry (List.mem_of_mem_take h)).imp_right .inl
    · exact .inr (.inr (List.mem_singleton.mp h))
  case isFalse => exact (hall entry h).imp_right .inl

/-! ## UTF-8 -/

theorem jsonEscape_of_ge {ch : UInt8} (h : 0x80 ≤ ch) : jsonEscape ch = [ch] := by
  have hne : ∀ c : UInt8, c < 0x80 → ch ≠ c := fun c hc heq => UInt8.not_le.mpr hc (heq ▸ h)
  have hge : ¬ ch < 0x20 := UInt8.not_lt.mpr (UInt8.le_trans (by decide) h)
  rw [jsonEscape, if_neg (hne _ (by decide)), if_neg (hne _ (by decide)),
    if_neg (hne _ (by decide)), if_neg (hne _ (by decide)), if_neg (hne _ (by decide)),
    if_neg (hne _ (by decide)), if_neg (hne _ (by decide)), if_neg hge]

theorem validUtf8_of_asciiText {bs : Bytes} (h : AsciiText bs) : ValidUtf8 bs :=
  validUtf8_of_ascii fun b hb => (h b hb).2

theorem textClosed_validUtf8 : TextClosed ValidUtf8 := ⟨ValidUtf8.append, validUtf8_of_asciiText⟩

/-- Escaping keeps a string valid. -/
theorem validUtf8_quoted {value : Bytes} (h : ValidUtf8 value) : ValidUtf8 (quoted value) := by
  have hbody : ValidUtf8 (value.flatMap jsonEscape) :=
    h.flatMap (fun ch hch b hb => (asciiText_jsonEscape hch b hb).2) fun _ => jsonEscape_of_ge
  have hquote : ValidUtf8 ['"'.byte] := validUtf8_of_asciiText (by decide)
  exact (hquote.append hbody).append hquote

theorem validUtf8_eventMessage_iff {message : Bytes} (h : ValidUtf8 message) :
    ValidUtf8 (eventMessage message) ↔
      ∀ b, message[maxMessageLength]? = some b → isContinuation b = false := by
  have hmark : AsciiText truncationMark := by decide
  rw [eventMessage]
  split
  case isTrue => exact h.take_append_iff (fun b hb => (hmark b hb).2) maxMessageLength
  case isFalse hshort =>
    refine iff_of_true h fun b hb => ?_
    rw [List.getElem?_eq_none (Nat.le_of_not_lt hshort)] at hb
    cases hb

/-- **The event of a log call with valid texts is valid exactly when its message is not cut
inside of a character**: when the message is not longer than the limit, or the first byte
behind the limit is no continuation byte. -/
theorem valid_dispatch_iff {fmt : DoubleFormat D} (hfmt : fmt.WritesNumbers) (logger : Logger)
    (mdc : Mdc D) (threadId : ThreadId) (now : ℤ) (severity : Level) (message : Bytes)
    (fields : List (Field D)) (location : SourceLocation) (hname : ValidUtf8 logger.name)
    (hmessage : ValidUtf8 message) (hfields : ∀ s ∈ fields.flatMap Field.strings, ValidUtf8 s)
    (hmdc : ∀ s ∈ mdc.getAll.flatMap Field.strings, ValidUtf8 s)
    (hlocation : ∀ s ∈ location.strings, ValidUtf8 s)
    (hthread : ValidUtf8 (formatThreadId threadId)) :
    let event := logger.dispatch mdc threadId now severity message fields location
    ValidUtf8 event.message ∧ ValidUtf8 (event.toJson fmt) ↔
      ∀ b, message[maxMessageLength]? = some b → isContinuation b = false := by
  intro event
  have hiff : ValidUtf8 event.message ↔ _ := validUtf8_eventMessage_iff hmessage
  rw [← hiff]
  refine ⟨And.left, fun hcut => ⟨hcut, ?_⟩⟩
  have heventFields : ∀ s ∈ event.fields.flatMap Field.strings, ValidUtf8 s := by
    intro s hs
    obtain ⟨entry, hentry, hs⟩ := List.mem_flatMap.mp hs
    rcases mem_eventFields hentry with hentry | hentry | rfl
    · exact hfields s (List.mem_flatMap.mpr ⟨entry, hentry, hs⟩)
    · exact hmdc s (List.mem_flatMap.mpr ⟨entry, hentry, hs⟩)
    · rw [List.mem_singleton.mp hs]
      exact validUtf8_of_asciiText (by decide : AsciiText (ascii "_truncated_fields"))
  have hstrings : ∀ s ∈ event.strings, ValidUtf8 s := by
    simp only [LogEvent.strings, List.forall_mem_append, List.forall_mem_cons]
    have hnone : ∀ s ∈ ([] : List Bytes), ValidUtf8 s := List.forall_mem_nil _
    exact ⟨⟨⟨⟨⟨⟨hname, hcut, hthread, hnone⟩, hlocation⟩, hnone⟩, hnone⟩, hnone⟩, heventFields⟩
  exact event.toJson_of textClosed_validUtf8 hfmt fun s hs => validUtf8_quoted (hstrings s hs)

/-- A message whose last character, of two bytes, lies across the limit. -/
def cutMessage : Bytes := List.replicate 32767 'a'.byte ++ [0xc3, 0xa9]

theorem validUtf8_cutMessage : ValidUtf8 cutMessage := by
  refine ValidUtf8.append (validUtf8_of_ascii fun b hb => ?_) ?_
  · rw [List.eq_of_mem_replicate hb]
    decide
  · have hlast : [0xc3, 0xa9] = String.utf8EncodeChar 'é' := by decide
    rw [hlast]
    exact validUtf8_encodeChar 'é'

theorem cutMessage_getElem : cutMessage[maxMessageLength]? = some 0xa9 := by
  rw [cutMessage, List.getElem?_append_right, List.length_replicate]
  · rfl
  · rw [List.length_replicate]
    decide

/-- The message of the event ends in half a character. -/
theorem not_valid_cutMessage : ValidUtf8 cutMessage ∧
    ¬ ValidUtf8 ((⟨ascii "app", .info⟩ : Logger).dispatch (D := Bool) [] ⟨ascii "1"⟩ 0 .info
      cutMessage [] ⟨ascii "main.cpp", 7, ascii "main"⟩).message := by
  refine ⟨validUtf8_cutMessage, fun hvalid => ?_⟩
  simp only [dispatch, validUtf8_eventMessage_iff validUtf8_cutMessage] at hvalid
  exact absurd (hvalid 0xa9 cutMessage_getElem) (by decide)

theorem valid_dispatch_iff_short :
    let event := (⟨ascii "app", .info⟩ : Logger).dispatch [⟨ascii "id", .string (ascii "7")⟩]
      ⟨ascii "1"⟩ 0 .info [0xc3, 0xa9] [] ⟨ascii "main.cpp", 7, ascii "main"⟩
    ValidUtf8 event.message ∧ ValidUtf8 (event.toJson halfOrNan) ↔
      ∀ b, ([0xc3, 0xa9] : Bytes)[maxMessageLength]? = some b → isContinuation b = false := by
  have hascii : ∀ s : Bytes, AsciiText s → ValidUtf8 s := fun _ => validUtf8_of_asciiText
  refine valid_dispatch_iff halfOrNan_writesNumbers _ _ _ _ _ _ _ _ (hascii _ (by decide)) ?_
    (List.forall_mem_nil _) ?_ ?_ (hascii _ (by decide))
  · have hchar : [0xc3, 0xa9] = String.utf8EncodeChar 'é' := by decide
    rw [hchar]
    exact validUtf8_encodeChar 'é'
  · intro s hs
    refine hascii s ?_
    revert s
    decide
  · intro s hs
    refine hascii s ?_
    revert s
    decide

/-! ## Keys -/

/-- What is put in the place of the other fields. -/
theorem map_key_eventFields (fields : List (Field D)) (mdc : Mdc D) :
    ∃ mark, (eventFields fields mdc).map Field.key =
        (fields.map Field.key).take maxFieldsCount ++
          mdc.keys.take (maxFieldsCount - fields.length) ++ mark ∧
      (mark = [] ∨ mark = [ascii "_truncated_fields"]) := by
  have hjoined : (if mdc.getAll.isEmpty then fields else fields ++ mdc.getAll) =
      fields ++ mdc := by
    split
    case isTrue hempty =>
      have hnil : mdc = [] := List.isEmpty_iff.mp hempty
      rw [hnil, List.append_nil]
    case isFalse => rfl
  have htake : ((fields ++ mdc).take maxFieldsCount).map Field.key =
      (fields.map Field.key).take maxFieldsCount ++
        mdc.keys.take (maxFieldsCount - fields.length) := by
    rw [List.take_append, List.map_append, List.map_take, List.map_take]
    rfl
  rw [eventFields, hjoined]
  split
  case isTrue =>
    refine ⟨[ascii "_truncated_fields"], ?_, .inr rfl⟩
    rw [List.map_append, htake]
    rfl
  case isFalse hle =>
    refine ⟨[], ?_, .inl rfl⟩
    rw [List.append_nil, ← htake, List.take_of_length_le (Nat.le_of_not_lt hle)]

/-- The fields have distinct keys when no key of the context that is kept is one of the
call's, as the two lists and the mark have distinct keys each. -/
theorem nodup_eventFields_iff {fields : List (Field D)} (hfields : (fields.map Field.key).Nodup)
    (hmark : ascii "_truncated_fields" ∉ fields.map Field.key) {mdc : Mdc D}
    (hmdc : mdc.keys.Nodup) (hmark' : ascii "_truncated_fields" ∉ mdc.keys) :
    ((eventFields fields mdc).map Field.key).Nodup ↔
      ∀ key ∈ mdc.keys.take (maxFieldsCount - fields.length), key ∉ fields.map Field.key := by
  obtain ⟨mark, hkeys, hcases⟩ := map_key_eventFields fields mdc
  have hnodup : mark.Nodup := by
    rcases hcases with rfl | rfl
    · exact List.nodup_nil
    · exact List.nodup_singleton _
  have hdisjoint : ((fields.map Field.key).take maxFieldsCount ++
      mdc.keys.take (maxFieldsCount - fields.length)).Disjoint mark := by
    intro key hkey hmem
    rcases hcases with rfl | rfl
    · cases hmem
    · rw [List.mem_singleton.mp hmem] at hkey
      rcases List.mem_append.mp hkey with hkey | hkey
      · exact hmark (List.mem_of_mem_take hkey)
      · exact hmark' (List.mem_of_mem_take hkey)
  rw [hkeys, List.nodup_append', List.nodup_append']
  constructor
  · rintro ⟨⟨-, -, hapart⟩, -, -⟩ key hkey hmem
    -- a field of the context is kept only behind all fields of the call
    have hpos : 0 < maxFieldsCount - fields.length := by
      by_contra hzero
      rw [Nat.eq_zero_of_not_pos hzero, List.take_zero] at hkey
      cases hkey
    have hall : (fields.map Field.key).take maxFieldsCount = fields.map Field.key := by
      refine List.take_of_length_le ?_
      rw [List.length_map]
      omega
    rw [hall] at hapart
    exact hapart hmem hkey
  · intro h
    refine ⟨⟨hfields.sublist (List.take_sublist _ _), hmdc.sublist (List.take_sublist _ _),
      fun key hkey hkey' => ?_⟩, hnodup, hdisjoint⟩
    exact h key hkey' (List.mem_of_mem_take hkey)

/-- **The fields of an event have distinct keys exactly when no key of the context that is kept
is also a key of the call**, when the call has no key twice and the mark is no key. -/
theorem distinctKeys_dispatch_iff {fmt : DoubleFormat D} (hfmt : fmt.WritesNumbers)
    (logger : Logger) {mdc : Mdc D} (hmdc : mdc.Reachable) (threadId : ThreadId) (now : ℤ)
    (severity : Level) (message : Bytes) {fields : List (Field D)}
    (hfields : (fields.map Field.key).Nodup)
    (hmark : ascii "_truncated_fields" ∉ fields.map Field.key)
    (hmark' : ascii "_truncated_fields" ∉ mdc.keys) (location : SourceLocation) :
    (logger.dispatch mdc threadId now severity message fields location).DistinctKeys fmt ↔
      ∀ key ∈ mdc.keys.take (maxFieldsCount - fields.length), key ∉ fields.map Field.key := by
  rw [LogEvent.distinctKeys_iff hfmt]
  exact nodup_eventFields_iff hfields hmark hmdc.nodup_keys hmark'

/-- A context with a user. -/
def userMdc : Mdc Bool := Mdc.put (ascii "user") (.string (ascii "alice")) []

theorem reachable_userMdc : userMdc.Reachable := .put .start _ _

/-- The call has a field of the context. -/
theorem not_distinctKeys_userMdc :
    userMdc.Reachable ∧ ascii "_truncated_fields" ∉ userMdc.keys ∧
      ¬ ((⟨ascii "app", .info⟩ : Logger).dispatch userMdc ⟨ascii "1"⟩ 0 .info (ascii "login")
        [⟨ascii "user", .string (ascii "bob")⟩] ⟨ascii "main.cpp", 7, ascii "main"⟩).DistinctKeys
          halfOrNan := by
  refine ⟨reachable_userMdc, by decide, fun h => ?_⟩
  exact absurd h.keys (by decide)

theorem distinctKeys_dispatch_iff_userMdc :
    ((⟨ascii "app", .info⟩ : Logger).dispatch userMdc ⟨ascii "1"⟩ 0 .info (ascii "login")
      [⟨ascii "role", .null⟩] ⟨ascii "main.cpp", 7, ascii "main"⟩).DistinctKeys halfOrNan ↔
      ∀ key ∈ userMdc.keys.take (maxFieldsCount - 1),
        key ∉ [(⟨ascii "role", .null⟩ : Field Bool)].map Field.key :=
  distinctKeys_dispatch_iff halfOrNan_writesNumbers ⟨ascii "app", .info⟩ reachable_userMdc
    ⟨ascii "1"⟩ 0 .info (ascii "login") (by decide) (by decide) (by decide)
    ⟨ascii "main.cpp", 7, ascii "main"⟩

end Logger

end Logspine
