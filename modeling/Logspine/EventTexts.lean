import Logspine.JsonEncoding

/-!
# What `to_json` is put together from

`to_json` writes the strings of an event in quotes, and ASCII texts between them. So a
property of texts that `++` keeps and that ASCII texts have holds of `to_json(event)` if it
holds of the quoted strings (`LogEvent.toJson_of`).
-/

namespace Logspine

variable {D : Type}

/-! ## Strings of an event -/

/-- The string of a string value. -/
def FieldValue.strings : FieldValue D → List Bytes
  | string value => [value]
  | _ => []

/-- The key, and the value when it is a string. -/
def Field.strings (entry : Field D) : List Bytes := entry.key :: entry.value.strings

/-- The names in a source location. -/
def SourceLocation.strings (location : SourceLocation) : List Bytes :=
  [location.fileName, location.functionName]

/-- The strings that `to_json(event)` writes as they come. -/
def LogEvent.strings (event : LogEvent D) : List Bytes :=
  [event.loggerName, event.message, formatThreadId event.threadId] ++
  event.location.elim [] SourceLocation.strings ++
  event.traceId.toList ++ event.spanId.toList ++ event.correlationId.toList ++
  event.fields.flatMap Field.strings

/-! ## Closed properties -/

/-- A property that concatenation keeps and every ASCII text has. -/
structure TextClosed (P : Bytes → Prop) : Prop where
  append : ∀ {bs bs' : Bytes}, P bs → P bs' → P (bs ++ bs')
  ascii : ∀ {bs : Bytes}, AsciiText bs → P bs

theorem textClosed_noControl : TextClosed NoControl := ⟨.append, AsciiText.noControl⟩

/-! ## ASCII texts -/

set_option maxRecDepth 2000 in
theorem asciiText_jsonEscape_ofNat : ∀ n < 128, AsciiText (jsonEscape (.ofNat n)) := by decide

theorem asciiText_jsonEscape {ch : UInt8} (h : ch < 0x80) : AsciiText (jsonEscape ch) := by
  have hescape := asciiText_jsonEscape_ofNat ch.toNat (UInt8.lt_iff_toNat_lt.mp h)
  rwa [UInt8.ofNat_toNat] at hescape

theorem asciiText_quoted {value : Bytes} (h : AsciiText value) : AsciiText (quoted value) := by
  refine AsciiText.append (.cons (by decide) fun b hb => ?_) (by decide)
  obtain ⟨ch, hch, hb⟩ := List.mem_flatMap.mp hb
  exact asciiText_jsonEscape (h ch hch).2 b hb

theorem asciiText_toString (value : Level) : AsciiText value.toString := by
  cases value <;> decide

theorem asciiText_zeros (n : ℕ) : AsciiText (List.replicate n '0'.byte) := by
  intro b hb
  rw [List.eq_of_mem_replicate hb]
  decide

theorem asciiText_zeroPadded (width : ℕ) (n : ℤ) : AsciiText (zeroPadded width n) := by
  cases n with
  | ofNat n => exact (asciiText_zeros _).append (asciiText_natural n)
  | negSucc n => exact .cons (by decide) ((asciiText_zeros _).append (asciiText_natural (n + 1)))

theorem asciiText_formatTimestamp (timestamp : ℤ) : AsciiText (formatTimestamp timestamp) := by
  have hpadded := asciiText_zeroPadded
  have hdate : ∀ {bs : Bytes}, AsciiText bs → ∀ {separator : Bytes}, AsciiText separator →
      ∀ width n, AsciiText (bs ++ separator ++ zeroPadded width n) :=
    fun h _ hseparator width n => (h.append hseparator).append (hpadded width n)
  refine AsciiText.append ?_ (by decide)
  refine hdate ?_ (by decide) _ _
  refine hdate ?_ (by decide) _ _
  refine hdate ?_ (by decide) _ _
  refine hdate ?_ (by decide) _ _
  refine hdate ?_ (by decide) _ _
  refine hdate ?_ (by decide) _ _
  exact hpadded _ _

/-! ## The encoder -/

section Closed

variable {P : Bytes → Prop} (hP : TextClosed P)

include hP

theorem FieldValue.toJson_of {fmt : DoubleFormat D} (hfmt : fmt.WritesNumbers)
    (value : FieldValue D) (h : ∀ s ∈ value.strings, P (quoted s)) : P (value.toJson fmt) := by
  cases value with
  | null => exact hP.ascii (by decide : AsciiText (ascii "null"))
  | bool value =>
    cases value with
    | false => exact hP.ascii (by decide : AsciiText (ascii "false"))
    | true => exact hP.ascii (by decide : AsciiText (ascii "true"))
  | int64 value => exact hP.ascii (asciiText_integer value.toInt)
  | uint64 value => exact hP.ascii (asciiText_natural value.toNat)
  | double value =>
    rw [FieldValue.toJson, appendFieldValueJson]
    split
    case isTrue hfinite =>
      obtain ⟨text, htext, hnumber⟩ := hfmt value hfinite
      rw [htext]
      exact hP.ascii (Json.asciiText_of_isNumber hnumber)
    case isFalse => exact hP.ascii (by decide : AsciiText (ascii "null"))
  | string value =>
    rw [FieldValue.toJson, appendFieldValueJson, appendJsonString_eq]
    exact h value List.mem_cons_self

namespace ObjectOutput

variable {w : ObjectOutput}

theorem appendKey_of (h : P w.output) {key : Bytes} (hkey : P (quoted key)) :
    P (w.appendKey key) := by
  rw [appendKey, appendJsonString_eq]
  refine hP.append (hP.append ?_ hkey) (hP.ascii (by decide))
  split
  case isTrue => exact h
  case isFalse => exact hP.append h (hP.ascii (by decide))

theorem appendNamedString_of (h : P w.output) {key value : Bytes} (hkey : AsciiText key)
    (hvalue : P (quoted value)) : P (w.appendNamedString key value).output := by
  rw [appendNamedString, appendJsonString_eq]
  exact hP.append (appendKey_of hP h (hP.ascii (asciiText_quoted hkey))) hvalue

theorem appendOptionalString_of (h : P w.output) {key : Bytes} (hkey : AsciiText key)
    {value : Option Bytes} (hvalue : ∀ s ∈ value.toList, P (quoted s)) :
    P (w.appendOptionalString key value).output := by
  cases value with
  | none => exact h
  | some value => exact appendNamedString_of hP h hkey (hvalue value List.mem_cons_self)

theorem appendLocation_of (h : P w.output) {location : Option SourceLocation}
    (hlocation : ∀ s ∈ location.elim [] SourceLocation.strings, P (quoted s)) :
    P (w.appendLocation location).output := by
  cases location with
  | none => exact h
  | some location =>
    obtain ⟨hfile, hfunction⟩ := List.forall_mem_cons.mp hlocation
    refine appendNamedString_of hP ?_ (by decide) (hfunction _ List.mem_cons_self)
    refine hP.append ?_ (hP.ascii (asciiText_natural location.line.toNat))
    refine appendKey_of hP ?_ (hP.ascii (by decide))
    exact appendNamedString_of hP h (by decide) hfile

theorem appendNamedObject_of {fmt : DoubleFormat D} (hfmt : fmt.WritesNumbers)
    (h : P w.output) {key : Bytes} (hkey : AsciiText key) {fields : List (Field D)}
    (hfields : ∀ s ∈ fields.flatMap Field.strings, P (quoted s)) :
    P (w.appendNamedObject fmt key fields).output := by
  have hfold : ∀ (fields : List (Field D)) (w : ObjectOutput),
      (∀ s ∈ fields.flatMap Field.strings, P (quoted s)) → P w.output →
      P (fields.foldl (fun (w : ObjectOutput) entry =>
        ⟨appendFieldValueJson fmt entry.value (w.appendKey entry.key), false⟩) w).output := by
    intro fields
    induction fields with
    | nil => exact fun w _ h => h
    | cons entry fields ih =>
      intro w hstrings h
      rw [List.flatMap_cons, List.forall_mem_append] at hstrings
      obtain ⟨hkey, hvalue⟩ := List.forall_mem_cons.mp hstrings.1
      refine ih _ hstrings.2 ?_
      dsimp only
      rw [appendFieldValueJson_eq]
      exact hP.append (appendKey_of hP h hkey) (entry.value.toJson_of hP hfmt hvalue)
  refine hP.append (hfold fields _ hfields (hP.append ?_ ?_)) (hP.ascii (by decide))
  · exact appendKey_of hP h (hP.ascii (asciiText_quoted hkey))
  · exact hP.ascii (by decide)

end ObjectOutput

/-- What holds of the quoted strings of an event holds of `to_json(event)`. -/
theorem LogEvent.toJson_of {fmt : DoubleFormat D} (hfmt : fmt.WritesNumbers) (event : LogEvent D)
    (h : ∀ s ∈ event.strings, P (quoted s)) : P (event.toJson fmt) := by
  simp only [LogEvent.strings, List.forall_mem_append, List.forall_mem_cons] at h
  obtain ⟨⟨⟨⟨⟨⟨hlogger, hmessage, hthread, -⟩, hlocation⟩, htrace⟩, hspan⟩, hcorrelation⟩,
    hfields⟩ := h
  refine hP.append ?_ (hP.ascii (by decide))
  refine ObjectOutput.appendNamedObject_of hP hfmt ?_ (by decide) hfields
  refine ObjectOutput.appendOptionalString_of hP ?_ (by decide) hcorrelation
  refine ObjectOutput.appendOptionalString_of hP ?_ (by decide) hspan
  refine ObjectOutput.appendOptionalString_of hP ?_ (by decide) htrace
  refine ObjectOutput.appendLocation_of hP ?_ hlocation
  refine ObjectOutput.appendNamedString_of hP ?_ (by decide) hthread
  refine ObjectOutput.appendNamedString_of hP ?_ (by decide) hmessage
  refine ObjectOutput.appendNamedString_of hP ?_ (by decide) hlogger
  refine ObjectOutput.appendNamedString_of hP ?_ (by decide)
    (hP.ascii (asciiText_quoted (asciiText_toString _)))
  refine ObjectOutput.appendNamedString_of hP ?_ (by decide)
    (hP.ascii (asciiText_quoted (asciiText_formatTimestamp _)))
  exact hP.ascii (by decide : AsciiText ['{'.byte])

end Closed

end Logspine
