import Mathlib.Data.List.TakeWhile
import Logspine.JsonParser

/-!
# Writing JSON

Texts without white space, as a writer appends them: strings byte for byte, members and
elements one after the other, with a comma before each but the first. Each step of a
writer extends a derivation at its end.
-/

namespace Json

/-! ## Strings -/

/-- A byte that a string contains as it is. -/
def isPlain (b : UInt8) : Bool := 0x20 ≤ b && b != '"'.byte && b != '\\'.byte

theorem UnitText.plain {b : UInt8} (h : isPlain b = true) : UnitText (.byte b) [b] := by
  simp only [isPlain, Bool.and_eq_true, decide_eq_true_eq, bne_iff_ne] at h
  exact .literal h.1.1 h.1.2 h.2

/-- A string, each byte of which is written as the text of a `char` that decodes to it. -/
theorem StringText.flatMap {u : UInt8 → StringUnit} {e : UInt8 → Bytes} {s : Bytes}
    (htext : ∀ b ∈ s, UnitText (u b) (e b))
    (hdecode : ∀ b us, decodeUnits (u b :: us) = b :: decodeUnits us) :
    StringText s ('"'.byte :: s.flatMap e ++ ['"'.byte]) := by
  have hunits : UnitsText (s.map u) (s.flatMap e) ∧ decodeUnits (s.map u) = s := by
    induction s with
    | nil => exact ⟨.nil, rfl⟩
    | cons b s ih =>
      obtain ⟨hs, hdec⟩ := ih fun c hc => htext c (List.mem_cons_of_mem b hc)
      refine ⟨.cons (htext b List.mem_cons_self) hs, ?_⟩
      rw [List.map_cons, hdecode, hdec]
  have hquoted := StringText.quoted hunits.1
  rwa [hunits.2] at hquoted

/-- A string that needs no escapes. -/
theorem StringText.plain {s : Bytes} (h : s.all isPlain = true) :
    StringText s ('"'.byte :: s ++ ['"'.byte]) := by
  have hquoted := StringText.flatMap (s := s) (u := .byte) (e := fun b => [b])
    (fun b hb => .plain (List.all_eq_true.mp h b hb)) fun _ _ => rfl
  rwa [List.flatMap_singleton'] at hquoted

/-! ## Control bytes -/

theorem hexDigit_ge {b : UInt8} {n : ℕ} (h : hexDigit b = some n) : 0x20 ≤ b := by
  rw [hexDigit] at h
  split at h
  case isTrue hdigit => exact le_of_isDigit hdigit
  case isFalse =>
    split at h
    case isTrue hupper => exact UInt8.le_trans (by decide) hupper.1
    case isFalse =>
      split at h
      case isTrue hlower => exact UInt8.le_trans (by decide) hlower.1
      case isFalse => cases h

theorem escapedByte_ge {c b : UInt8} (h : escapedByte c = some b) : 0x20 ≤ c := by
  by_contra hlt
  have hne : ∀ d : UInt8, 0x20 ≤ d → c ≠ d := fun d hd heq => hlt (heq ▸ hd)
  rw [escapedByte, if_neg, if_neg (hne _ (by decide)), if_neg (hne _ (by decide)),
    if_neg (hne _ (by decide)), if_neg (hne _ (by decide)), if_neg (hne _ (by decide))] at h
  · cases h
  · rintro (heq | heq | heq)
    · exact hne _ (by decide) heq
    · exact hne _ (by decide) heq
    · exact hne _ (by decide) heq

theorem UnitText.noControl {u : StringUnit} {text : Bytes} (h : UnitText u text) :
    NoControl text := by
  cases h with
  | literal hc hq hb => exact .cons hc nofun
  | escape h => exact .cons (by decide) (.cons (escapedByte_ge h) nofun)
  | unicode h =>
    obtain ⟨_, ha, h⟩ := Option.bind_eq_some_iff.mp h
    obtain ⟨_, hb, h⟩ := Option.bind_eq_some_iff.mp h
    obtain ⟨_, hc, h⟩ := Option.bind_eq_some_iff.mp h
    obtain ⟨_, hd, -⟩ := Option.bind_eq_some_iff.mp h
    exact .cons (by decide) (.cons (by decide) (.cons (hexDigit_ge ha) (.cons (hexDigit_ge hb)
      (.cons (hexDigit_ge hc) (.cons (hexDigit_ge hd) nofun)))))

theorem UnitsText.noControl {us : List StringUnit} {text : Bytes} (h : UnitsText us text) :
    NoControl text := by
  induction h with
  | nil => exact nofun
  | cons h _ ih => exact h.noControl.append ih

/-- No control byte occurs in the text of a string. -/
theorem StringText.noControl {s text : Bytes} (h : StringText s text) : NoControl text := by
  cases h with
  | quoted h => exact (NoControl.cons (by decide) h.noControl).append (by decide)

theorem ascii_of_isNumberByte {b : UInt8} (h : isNumberByte b = true) : 0x20 ≤ b ∧ b < 0x80 := by
  simp only [isNumberByte, Bool.or_eq_true, beq_iff_eq] at h
  rcases h with ((((hdigit | rfl) | rfl) | rfl) | rfl) | rfl
  · exact ascii_of_isDigit hdigit
  all_goals decide

theorem asciiText_of_isNumber {text : Bytes} (h : isNumber text = true) : AsciiText text := by
  obtain ⟨_, _, -, hbytes⟩ := isNumber_head h
  exact fun b hb => ascii_of_isNumberByte (hbytes b hb)

/-! ## Numbers -/

theorem isFracExp_digits {ds : Bytes} (h : ∀ b ∈ ds, isDigit b = true) :
    isFracExp (ds.dropWhile isDigit) = true := by
  rw [List.dropWhile_eq_nil_iff.mpr h]
  rfl

theorem isUnsigned_natural (n : ℕ) : isUnsigned (natural n) = true := by
  obtain ⟨d, ds, heq, hd, hds, hne, hnil⟩ := natural_eq_cons n
  rw [heq, isUnsigned]
  split
  case isTrue hzero =>
    have hn : n = 0 := by
      by_contra hn
      exact hne hn hzero
    rw [hnil hn]
    rfl
  case isFalse => rw [hd, isFracExp_digits hds, Bool.and_self]

theorem isNumber_natural (n : ℕ) : isNumber (natural n) = true := by
  have hunsigned := isUnsigned_natural n
  obtain ⟨d, ds, heq, hd, -⟩ := natural_eq_cons n
  rw [heq] at hunsigned ⊢
  have hminus : d ≠ '-'.byte := by
    rintro rfl
    cases hd
  rw [isNumber, if_neg hminus]
  exact hunsigned

theorem isNumber_integer (n : ℤ) : isNumber (integer n) = true := by
  cases n with
  | ofNat n => exact isNumber_natural n
  | negSucc n =>
    rw [integer, isNumber, if_pos rfl]
    exact isUnsigned_natural (n + 1)

/-- A decimal text with a fraction. -/
theorem isUnsigned_fraction (n : ℕ) {ds : Bytes} (hne : ds ≠ [])
    (hds : ∀ b ∈ ds, isDigit b = true) : isUnsigned (natural n ++ '.'.byte :: ds) = true := by
  have hfraction : isFracExp ('.'.byte :: ds) = true := by
    rw [isFracExp, if_pos rfl]
    cases ds with
    | nil => exact absurd rfl hne
    | cons d ds =>
      rw [isFraction, hds d List.mem_cons_self, Bool.true_and,
        List.dropWhile_eq_nil_iff.mpr fun b hb => hds b (List.mem_cons_of_mem d hb)]
      rfl
  obtain ⟨d, ds', heq, hd, hds', hzero, hnil⟩ := natural_eq_cons n
  rw [heq, List.cons_append, isUnsigned]
  split
  case isTrue hdzero =>
    have hn : n = 0 := by
      by_contra hn
      exact hzero hn hdzero
    rw [hnil hn]
    exact hfraction
  case isFalse =>
    have hpoint : ¬ isDigit '.'.byte = true := by decide
    rw [hd, Bool.true_and, List.dropWhile_append_of_pos hds', List.dropWhile_cons_of_neg hpoint]
    exact hfraction

/-! ## Documents -/

/-- A text of a value is a document of it. -/
theorem Derives.parse {v : Json} {text : Bytes} (h : Derives (.value v) text) :
    Json.parse text = some v := by
  have hdocument := Document.text ws_nil h ws_nil
  rw [List.nil_append, List.append_nil] at hdocument
  exact parse_eq_some.mpr hdocument

/-! ## Objects -/

/-- A member and its text. -/
inductive MemberText : Bytes × Json → Bytes → Prop where
  | colon {key name text : Bytes} {v : Json} (hk : StringText key name)
    (h : Derives (.value v) text) : MemberText (key, v) (name ++ ':'.byte :: text)

theorem MemberText.derives {m : Bytes × Json} {text : Bytes} (h : MemberText m text) :
    Derives (.members [m]) text := by
  obtain ⟨hk, h⟩ := h
  have hlast := Derives.lastMember hk ws_nil ws_nil h ws_nil
  rwa [List.append_nil, List.nil_append, List.append_nil] at hlast

/-- A name that needs no escapes, and the colon behind it. -/
def named (key : Bytes) : Bytes := '"'.byte :: key ++ ['"'.byte, ':'.byte]

theorem MemberText.named {key text : Bytes} {v : Json} (h : Derives (.value v) text)
    (hk : key.all isPlain = true) : MemberText (key, v) (Json.named key ++ text) := by
  have hmember := MemberText.colon (StringText.plain hk) h
  rw [Json.named]
  simpa only [List.append_assoc, List.cons_append, List.nil_append] using hmember

/-- One more member, behind a comma. -/
theorem Derives.membersConcat {ms : List (Bytes × Json)} {m : Bytes × Json} {text next : Bytes}
    (h : Derives (.members ms) text) (hm : MemberText m next) :
    Derives (.members (ms ++ [m])) (text ++ ','.byte :: next) := by
  generalize hph : Phrase.members ms = ph at h
  induction h generalizing ms with
  | null | true | false | number | string | emptyArray | array | emptyObject | object
  | lastElement | element => cases hph
  | lastMember hk hws hws' h hws'' =>
    cases hph
    have hmember := Derives.member hk hws hws' h hws'' ws_nil hm.derives
    simpa only [List.append_assoc, List.cons_append, List.nil_append] using hmember
  | member hk hws hws' h hws'' hwt hs ih ihs =>
    cases hph
    have hmember := Derives.member hk hws hws' h hws'' hwt (ihs rfl)
    simpa only [List.append_assoc, List.cons_append, List.nil_append] using hmember

/-- An object of members. -/
theorem Derives.braces {ms : List (Bytes × Json)} {text : Bytes} (h : Derives (.members ms) text) :
    Derives (.value (.object ms)) ('{'.byte :: text ++ ['}'.byte]) := .object ws_nil h

/-- An object with one member. -/
theorem Derives.singleton {key name text : Bytes} {v : Json} (hk : StringText key name)
    (h : Derives (.value v) text) :
    Derives (.value (.object [(key, v)]))
      ('{'.byte :: (name ++ ':'.byte :: text) ++ ['}'.byte]) := by
  have hobject := Derives.object ws_nil (MemberText.colon hk h).derives
  exact hobject

/-! ## Arrays -/

theorem Derives.elements {v : Json} {text : Bytes} (h : Derives (.value v) text) :
    Derives (.elements [v]) text := by
  have hlast := Derives.lastElement h ws_nil
  rwa [List.append_nil] at hlast

/-- An array of elements. -/
theorem Derives.brackets {vs : List Json} {text : Bytes} (h : Derives (.elements vs) text) :
    Derives (.value (.array vs)) ('['.byte :: text ++ [']'.byte]) := .array ws_nil h

/-- One more element, behind a comma. -/
theorem Derives.elementsConcat {vs : List Json} {v : Json} {text next : Bytes}
    (h : Derives (.elements vs) text) (hv : Derives (.value v) next) :
    Derives (.elements (vs ++ [v])) (text ++ ','.byte :: next) := by
  generalize hph : Phrase.elements vs = ph at h
  induction h generalizing vs with
  | null | true | false | number | string | emptyArray | array | emptyObject | object
  | lastMember | member => cases hph
  | lastElement h hws =>
    cases hph
    have helement := Derives.element h hws ws_nil hv.elements
    simpa only [List.append_assoc, List.cons_append, List.nil_append] using helement
  | element h hws hws' hs ih ihs =>
    cases hph
    have helement := Derives.element h hws hws' (ihs rfl)
    simpa only [List.append_assoc, List.cons_append, List.nil_append] using helement

end Json
