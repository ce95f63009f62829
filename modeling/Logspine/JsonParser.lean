import Mathlib.Data.List.TakeWhile
import Logspine.Json

/-!
# A JSON parser

A recursive descent parser for the grammar of `Logspine.Json`, on fuel. It accepts
exactly the documents of the grammar (`parse_eq_some`): what is derived is decoded
(`Derives.complete`), and what is decoded was derived (`sound`). So a text has at most
one value.
-/

namespace Json

/-! ## Tokens -/

/-- Drop white space. -/
def skipWs (bs : Bytes) : Bytes := bs.dropWhile isWs

theorem skipWs_append {ws : Bytes} (h : Ws ws) (bs : Bytes) : skipWs (ws ++ bs) = skipWs bs := by
  induction ws with
  | nil => rfl
  | cons b ws ih =>
    rw [List.cons_append, skipWs, List.dropWhile_cons_of_pos (h b List.mem_cons_self)]
    exact ih fun c hc => h c (List.mem_cons_of_mem b hc)

theorem skipWs_cons {b : UInt8} (h : isWs b = false) (bs : Bytes) : skipWs (b :: bs) = b :: bs :=
  List.dropWhile_cons_of_neg (by rw [h]; exact Bool.false_ne_true)

theorem skipWs_of_ws {ws : Bytes} (h : Ws ws) : skipWs ws = [] := by
  have hskip := skipWs_append h []
  rwa [List.append_nil] at hskip

/-- What was dropped is white space. -/
theorem exists_ws (bs : Bytes) : ∃ ws, Ws ws ∧ bs = ws ++ skipWs bs :=
  ⟨bs.takeWhile isWs, fun _ h => List.mem_takeWhile_imp h, List.takeWhile_append_dropWhile.symm⟩

/-- Take the byte `c` off the input. -/
def expect (c : UInt8) : Bytes → Option Bytes
  | [] => none
  | b :: bs => if b = c then some bs else none

theorem expect_eq_some {c : UInt8} {bs rest : Bytes} :
    expect c bs = some rest ↔ bs = c :: rest := by
  cases bs with
  | nil => exact iff_of_false nofun nofun
  | cons b bs =>
    rw [expect, Option.ite_none_right_eq_some, Option.some.injEq, List.cons.injEq]

theorem expect_cons_self (c : UInt8) (bs : Bytes) : expect c (c :: bs) = some bs := if_pos rfl

theorem expect_cons_of_ne {b c : UInt8} (h : b ≠ c) (bs : Bytes) : expect c (b :: bs) = none :=
  if_neg h

/-- Take a text off the input. -/
def stripPrefix : Bytes → Bytes → Option Bytes
  | [], bs => some bs
  | c :: cs, bs => (expect c bs).bind (stripPrefix cs)

theorem stripPrefix_eq_some {text bs rest : Bytes} :
    stripPrefix text bs = some rest ↔ bs = text ++ rest := by
  induction text generalizing bs with
  | nil => rw [stripPrefix, Option.some.injEq, List.nil_append]
  | cons c text ih =>
    rw [stripPrefix, Option.bind_eq_some_iff]
    constructor
    · rintro ⟨bs', hc, h⟩
      rw [expect_eq_some.mp hc, ih.mp h, List.cons_append]
    · rintro rfl
      exact ⟨text ++ rest, expect_cons_self c _, ih.mpr rfl⟩

/-! ## Strings -/

/-- An escape, after its backslash. -/
def readEscape : Bytes → Option (StringUnit × Bytes)
  | [] => none
  | c :: bs =>
    if c = 'u'.byte then readCode bs else (escapedByte c).map fun b => (.byte b, bs)
where
  /-- four hexadecimal digits -/
  readCode : Bytes → Option (StringUnit × Bytes)
    | a :: b :: c :: d :: bs => (hex4 a b c d).map fun u => (.code u, bs)
    | _ => none

/-- One `char` of a string. -/
def readUnit : Bytes → Option (StringUnit × Bytes)
  | [] => none
  | b :: bs =>
    if b = '\\'.byte then readEscape bs
    else if 0x20 ≤ b ∧ b ≠ '"'.byte then some (.byte b, bs)
    else none

theorem readEscape_eq_some {u : StringUnit} {bs rest : Bytes}
    (h : readEscape bs = some (u, rest)) :
    ∃ text, UnitText u ('\\'.byte :: text) ∧ bs = text ++ rest := by
  cases bs with
  | nil => cases h
  | cons c bs =>
    rw [readEscape] at h
    split at h
    case isTrue hc =>
      subst hc
      rw [readEscape.readCode.eq_def] at h
      split at h
      case h_1 a b c d bs =>
        obtain ⟨v, hv, heq⟩ := Option.map_eq_some_iff.mp h
        obtain ⟨rfl, rfl⟩ := Prod.mk.inj heq
        exact ⟨_, .unicode hv, rfl⟩
      case h_2 => cases h
    case isFalse =>
      obtain ⟨v, hv, heq⟩ := Option.map_eq_some_iff.mp h
      obtain ⟨rfl, rfl⟩ := Prod.mk.inj heq
      exact ⟨_, .escape hv, rfl⟩

theorem readUnit_eq_some {u : StringUnit} {bs rest : Bytes} :
    readUnit bs = some (u, rest) ↔ ∃ text, UnitText u text ∧ bs = text ++ rest := by
  constructor
  · intro h
    cases bs with
    | nil => cases h
    | cons b bs =>
      rw [readUnit] at h
      split at h
      case isTrue hb =>
        subst hb
        obtain ⟨text, ht, rfl⟩ := readEscape_eq_some h
        exact ⟨_, ht, rfl⟩
      case isFalse hb =>
        split at h
        case isTrue hlit =>
          obtain ⟨rfl, rfl⟩ := Prod.mk.inj (Option.some.inj h)
          exact ⟨_, .literal hlit.1 hlit.2 hb, rfl⟩
        case isFalse => cases h
  · rintro ⟨text, h, rfl⟩
    cases h with
    | literal hc hq hb =>
      rw [List.singleton_append, readUnit, if_neg hb, if_pos ⟨hc, hq⟩]
    | @escape c b h =>
      have hu : c ≠ 'u'.byte := by
        rintro rfl
        cases h
      simp only [List.cons_append, List.nil_append, readUnit, readEscape, if_true, if_neg hu, h,
        Option.map_some]
    | unicode h =>
      simp only [List.cons_append, List.nil_append, readUnit, readEscape, readEscape.readCode,
        if_true, h, Option.map_some]

/-- The rest of a string, up to its closing quote. -/
def readUnits : ℕ → Bytes → Option (List StringUnit × Bytes)
  | 0, _ => none
  | fuel + 1, bs =>
    match expect '"'.byte bs with
    | some bs => some ([], bs)
    | none => do
      let (u, bs) ← readUnit bs
      let (us, bs) ← readUnits fuel bs
      return (u :: us, bs)

theorem UnitText.ne_nil {u : StringUnit} {text : Bytes} (h : UnitText u text) : text ≠ [] := by
  cases h <;> exact List.cons_ne_nil _ _

/-- No `char` begins with a quote. -/
theorem UnitText.expect_eq_none {u : StringUnit} {text : Bytes} (h : UnitText u text)
    (rest : Bytes) : expect '"'.byte (text ++ rest) = none := by
  cases h with
  | literal hc hq hb => exact if_neg hq
  | escape h => rfl
  | unicode h => rfl

theorem readUnits_sound {fuel : ℕ} {us : List StringUnit} {bs rest : Bytes}
    (h : readUnits fuel bs = some (us, rest)) :
    ∃ body, UnitsText us body ∧ bs = body ++ '"'.byte :: rest := by
  induction fuel generalizing us bs with
  | zero => cases h
  | succ fuel ih =>
    rw [readUnits] at h
    split at h
    case h_1 bs' hq =>
      obtain ⟨rfl, rfl⟩ := Prod.mk.inj (Option.some.inj h)
      exact ⟨[], .nil, expect_eq_some.mp hq⟩
    case h_2 =>
      obtain ⟨⟨u, bs₁⟩, hu, h⟩ := Option.bind_eq_some_iff.mp h
      obtain ⟨⟨us', bs₂⟩, hus, h⟩ := Option.bind_eq_some_iff.mp h
      obtain ⟨rfl, rfl⟩ := Prod.mk.inj (Option.some.inj h)
      obtain ⟨text, ht, rfl⟩ := readUnit_eq_some.mp hu
      obtain ⟨body, hbody, rfl⟩ := ih hus
      exact ⟨text ++ body, .cons ht hbody, (List.append_assoc ..).symm⟩

theorem UnitsText.complete {us : List StringUnit} {body : Bytes} (h : UnitsText us body)
    (rest : Bytes) : ∀ fuel, body.length < fuel →
      readUnits fuel (body ++ '"'.byte :: rest) = some (us, rest) := by
  induction h with
  | nil =>
    intro fuel hf
    obtain ⟨fuel, rfl⟩ := Nat.exists_eq_succ_of_ne_zero (Nat.ne_zero_of_lt hf)
    rw [readUnits, List.nil_append, expect_cons_self]
  | @cons u us text texts hu hs ih =>
    intro fuel hf
    obtain ⟨fuel, rfl⟩ := Nat.exists_eq_succ_of_ne_zero (Nat.ne_zero_of_lt hf)
    have hlen : texts.length < fuel := by
      have hpos := List.length_pos_of_ne_nil hu.ne_nil
      rw [List.length_append] at hf
      omega
    rw [List.append_assoc, readUnits, hu.expect_eq_none, readUnit_eq_some.mpr ⟨text, hu, rfl⟩]
    simp only [Option.bind_eq_bind, Option.bind_some, ih fuel hlen, Option.pure_def]

/-- A string, with its quotes. -/
def readString (bs : Bytes) : Option (Bytes × Bytes) := do
  let bs ← expect '"'.byte bs
  let (us, bs) ← readUnits bs.length bs
  return (decodeUnits us, bs)

theorem readString_eq_some {s bs rest : Bytes} :
    readString bs = some (s, rest) ↔ ∃ text, StringText s text ∧ bs = text ++ rest := by
  constructor
  · intro h
    obtain ⟨bs₁, hq, h⟩ := Option.bind_eq_some_iff.mp h
    obtain ⟨⟨us, bs₂⟩, hus, h⟩ := Option.bind_eq_some_iff.mp h
    obtain ⟨rfl, rfl⟩ := Prod.mk.inj (Option.some.inj h)
    obtain ⟨body, hbody, rfl⟩ := readUnits_sound hus
    refine ⟨_, .quoted hbody, ?_⟩
    rw [expect_eq_some.mp hq, List.cons_append, List.cons_append, List.append_assoc,
      List.singleton_append]
  · rintro ⟨text, ⟨h⟩, rfl⟩
    rename_i us body
    have hus := h.complete rest (body ++ '"'.byte :: rest).length (by
      rw [List.length_append, List.length_cons]
      omega)
    rw [List.cons_append, List.cons_append, List.append_assoc, List.singleton_append, readString,
      expect_cons_self]
    simp only [Option.bind_eq_bind, Option.bind_some, hus, Option.pure_def]

/-! ## Numbers and literals -/

/-- A byte that can occur in a number. -/
def isNumberByte (b : UInt8) : Bool :=
  isDigit b || b == '-'.byte || b == '+'.byte || b == '.'.byte || b == 'e'.byte || b == 'E'.byte

/-- A number: the longest text of number bytes. -/
def readNumber (bs : Bytes) : Option (Json × Bytes) :=
  if isNumber (bs.takeWhile isNumberByte) then
    some (.number (bs.takeWhile isNumberByte), bs.dropWhile isNumberByte)
  else none

/-- A literal name. -/
def readLiteral (bs : Bytes) : Option (Json × Bytes) :=
  match stripPrefix (ascii "null") bs with
  | some bs => some (.null, bs)
  | none =>
    match stripPrefix (ascii "true") bs with
    | some bs => some (.bool Bool.true, bs)
    | none => (stripPrefix (ascii "false") bs).map fun bs => (.bool Bool.false, bs)

theorem isNumberByte_of_isDigit {b : UInt8} (h : isDigit b = true) : isNumberByte b = true := by
  simp only [isNumberByte, h, Bool.true_or]

theorem all_of_dropWhile {bs : Bytes} (h : ∀ b ∈ bs.dropWhile isDigit, isNumberByte b = true) :
    ∀ b ∈ bs, isNumberByte b = true := by
  intro b hb
  rw [← List.takeWhile_append_dropWhile (p := isDigit) (l := bs)] at hb
  rcases List.mem_append.mp hb with hb | hb
  · exact isNumberByte_of_isDigit (List.mem_takeWhile_imp hb)
  · exact h b hb

theorem isNumberByte_of_isExp {bs : Bytes} (h : isExp bs = true) :
    ∀ b ∈ bs, isNumberByte b = true := by
  cases bs with
  | nil => exact nofun
  | cons e bs =>
    simp only [isExp, Bool.and_eq_true, Bool.or_eq_true, beq_iff_eq, List.all_eq_true] at h
    obtain ⟨⟨he, -⟩, hdigits⟩ := h
    refine List.forall_mem_cons.mpr ⟨?_, ?_⟩
    · rcases he with rfl | rfl <;> rfl
    · cases bs with
      | nil => exact nofun
      | cons s ds =>
        rw [unsign] at hdigits
        split at hdigits
        case isTrue hs =>
          refine List.forall_mem_cons.mpr ⟨?_, fun b hb => ?_⟩
          · rcases hs with rfl | rfl <;> rfl
          · exact isNumberByte_of_isDigit (hdigits b hb)
        case isFalse => exact fun b hb => isNumberByte_of_isDigit (hdigits b hb)

theorem isNumberByte_of_isFraction {bs : Bytes} (h : isFraction bs = true) :
    ∀ b ∈ bs, isNumberByte b = true := by
  cases bs with
  | nil => exact nofun
  | cons d bs =>
    rw [isFraction, Bool.and_eq_true] at h
    exact List.forall_mem_cons.mpr ⟨isNumberByte_of_isDigit h.1,
      all_of_dropWhile (isNumberByte_of_isExp h.2)⟩

theorem isNumberByte_of_isFracExp {bs : Bytes} (h : isFracExp bs = true) :
    ∀ b ∈ bs, isNumberByte b = true := by
  cases bs with
  | nil => exact nofun
  | cons p bs =>
    rw [isFracExp] at h
    split at h
    case isTrue hp =>
      exact List.forall_mem_cons.mpr ⟨hp ▸ rfl, isNumberByte_of_isFraction h⟩
    case isFalse => exact isNumberByte_of_isExp h

/-- A number begins with a digit. -/
theorem isUnsigned_head {bs : Bytes} (h : isUnsigned bs = true) :
    ∃ d ds, bs = d :: ds ∧ isDigit d = true ∧ ∀ b ∈ ds, isNumberByte b = true := by
  cases bs with
  | nil => cases h
  | cons d ds =>
    rw [isUnsigned] at h
    split at h
    case isTrue hd => exact ⟨d, ds, rfl, hd ▸ rfl, isNumberByte_of_isFracExp h⟩
    case isFalse =>
      rw [Bool.and_eq_true] at h
      exact ⟨d, ds, rfl, h.1, all_of_dropWhile (isNumberByte_of_isFracExp h.2)⟩

/-- A number consists of number bytes, and begins with one. -/
theorem isNumber_head {text : Bytes} (h : isNumber text = true) :
    ∃ b bs, text = b :: bs ∧ ∀ c ∈ text, isNumberByte c = true := by
  cases text with
  | nil => cases h
  | cons b bs =>
    refine ⟨b, bs, rfl, ?_⟩
    rw [isNumber] at h
    split at h
    case isTrue hb =>
      obtain ⟨d, ds, rfl, hd, hds⟩ := isUnsigned_head h
      refine List.forall_mem_cons.mpr ⟨hb ▸ rfl, List.forall_mem_cons.mpr ⟨?_, hds⟩⟩
      exact isNumberByte_of_isDigit hd
    case isFalse =>
      obtain ⟨d, ds, heq, hd, hds⟩ := isUnsigned_head h
      rw [heq]
      exact List.forall_mem_cons.mpr ⟨isNumberByte_of_isDigit hd, hds⟩

/-- The next byte does not continue a number. -/
def Follow (rest : Bytes) : Prop := ∀ b ∈ rest.head?, isNumberByte b = false

theorem readNumber_append {text rest : Bytes} (h : isNumber text = true) (hr : Follow rest) :
    readNumber (text ++ rest) = some (.number text, rest) := by
  obtain ⟨-, -, -, hall⟩ := isNumber_head h
  have htake : rest.takeWhile isNumberByte = [] ∧ rest.dropWhile isNumberByte = rest := by
    cases rest with
    | nil => exact ⟨rfl, rfl⟩
    | cons b rest =>
      have hb : ¬ isNumberByte b = true := by
        rw [hr b rfl]
        exact Bool.false_ne_true
      exact ⟨List.takeWhile_cons_of_neg hb, List.dropWhile_cons_of_neg hb⟩
  rw [readNumber, List.takeWhile_append_of_pos hall, List.dropWhile_append_of_pos hall, htake.1,
    htake.2, List.append_nil, if_pos h]

theorem readNumber_sound {bs rest : Bytes} {v : Json} (h : readNumber bs = some (v, rest)) :
    ∃ text, Derives (.value v) text ∧ bs = text ++ rest := by
  rw [readNumber] at h
  split at h
  case isTrue hn =>
    obtain ⟨rfl, rfl⟩ := Prod.mk.inj (Option.some.inj h)
    exact ⟨_, .number hn, List.takeWhile_append_dropWhile.symm⟩
  case isFalse => cases h

theorem readLiteral_sound {bs rest : Bytes} {v : Json} (h : readLiteral bs = some (v, rest)) :
    ∃ text, Derives (.value v) text ∧ bs = text ++ rest := by
  rw [readLiteral] at h
  split at h
  case h_1 hs =>
    obtain ⟨rfl, rfl⟩ := Prod.mk.inj (Option.some.inj h)
    exact ⟨_, .null, stripPrefix_eq_some.mp hs⟩
  case h_2 =>
    split at h
    case h_1 hs =>
      obtain ⟨rfl, rfl⟩ := Prod.mk.inj (Option.some.inj h)
      exact ⟨_, .true, stripPrefix_eq_some.mp hs⟩
    case h_2 =>
      obtain ⟨bs', hs, heq⟩ := Option.map_eq_some_iff.mp h
      obtain ⟨rfl, rfl⟩ := Prod.mk.inj heq
      exact ⟨_, .false, stripPrefix_eq_some.mp hs⟩

/-! ## Values -/

mutual

/-- A value. -/
def readValue : ℕ → Bytes → Option (Json × Bytes)
  | 0, _ => none
  | fuel + 1, bs =>
    match expect '{'.byte bs with
    | some bs =>
      match expect '}'.byte (skipWs bs) with
      | some bs => some (.object [], bs)
      | none => (readMembers fuel (skipWs bs)).map fun r => (.object r.1, r.2)
    | none =>
      match expect '['.byte bs with
      | some bs =>
        match expect ']'.byte (skipWs bs) with
        | some bs => some (.array [], bs)
        | none => (readElements fuel (skipWs bs)).map fun r => (.array r.1, r.2)
      | none =>
        match readString bs with
        | some (s, bs) => some (.string s, bs)
        | none =>
          match readLiteral bs with
          | some r => some r
          | none => readNumber bs

/-- The elements of an array, and its closing bracket. -/
def readElements : ℕ → Bytes → Option (List Json × Bytes)
  | 0, _ => none
  | fuel + 1, bs => do
    let (v, bs) ← readValue fuel bs
    match expect ','.byte (skipWs bs) with
    | some bs =>
      let (vs, bs) ← readElements fuel (skipWs bs)
      return (v :: vs, bs)
    | none =>
      let bs ← expect ']'.byte (skipWs bs)
      return ([v], bs)

/-- The members of an object, and its closing brace. -/
def readMembers : ℕ → Bytes → Option (List (Bytes × Json) × Bytes)
  | 0, _ => none
  | fuel + 1, bs => do
    let (key, bs) ← readString bs
    let bs ← expect ':'.byte (skipWs bs)
    let (v, bs) ← readValue fuel (skipWs bs)
    match expect ','.byte (skipWs bs) with
    | some bs =>
      let (ms, bs) ← readMembers fuel (skipWs bs)
      return ((key, v) :: ms, bs)
    | none =>
      let bs ← expect '}'.byte (skipWs bs)
      return ([(key, v)], bs)

end

/-- The value of a document. -/
def parse (text : Bytes) : Option Json :=
  match readValue (skipWs text).length (skipWs text) with
  | some (v, rest) => if skipWs rest = [] then some v else none
  | none => none

/-! ## What is decoded was derived -/

/-- What is read is the text of the phrase, and the rest. -/
theorem sound (fuel : ℕ) :
    (∀ bs v rest, readValue fuel bs = some (v, rest) →
      ∃ text, Derives (.value v) text ∧ bs = text ++ rest) ∧
    (∀ bs vs rest, readElements fuel bs = some (vs, rest) →
      ∃ text, Derives (.elements vs) text ∧ bs = text ++ ']'.byte :: rest) ∧
    ∀ bs ms rest, readMembers fuel bs = some (ms, rest) →
      ∃ text, Derives (.members ms) text ∧ bs = text ++ '}'.byte :: rest := by
  induction fuel with
  | zero => exact ⟨nofun, nofun, nofun⟩
  | succ fuel ih =>
    obtain ⟨ihValue, ihElements, ihMembers⟩ := ih
    refine ⟨fun bs v rest h => ?_, fun bs vs rest h => ?_, fun bs ms rest h => ?_⟩
    · rw [readValue] at h
      split at h
      case h_1 bs₁ hopen =>
        rw [expect_eq_some.mp hopen]
        obtain ⟨ws, hws, hbs⟩ := exists_ws bs₁
        split at h
        case h_1 bs₂ hclose =>
          obtain ⟨rfl, rfl⟩ := Prod.mk.inj (Option.some.inj h)
          refine ⟨_, .emptyObject hws, ?_⟩
          rw [hbs, expect_eq_some.mp hclose]
          simp only [List.cons_append, List.append_assoc, List.nil_append]
        case h_2 =>
          obtain ⟨⟨ms, bs₂⟩, hms, heq⟩ := Option.map_eq_some_iff.mp h
          obtain ⟨rfl, rfl⟩ := Prod.mk.inj heq
          obtain ⟨text, htext, hskip⟩ := ihMembers _ _ _ hms
          refine ⟨_, .object hws htext, ?_⟩
          rw [hbs, hskip]
          simp only [List.cons_append, List.append_assoc, List.nil_append]
      case h_2 =>
        split at h
        case h_1 bs₁ hopen =>
          rw [expect_eq_some.mp hopen]
          obtain ⟨ws, hws, hbs⟩ := exists_ws bs₁
          split at h
          case h_1 bs₂ hclose =>
            obtain ⟨rfl, rfl⟩ := Prod.mk.inj (Option.some.inj h)
            refine ⟨_, .emptyArray hws, ?_⟩
            rw [hbs, expect_eq_some.mp hclose]
            simp only [List.cons_append, List.append_assoc, List.nil_append]
          case h_2 =>
            obtain ⟨⟨vs, bs₂⟩, hvs, heq⟩ := Option.map_eq_some_iff.mp h
            obtain ⟨rfl, rfl⟩ := Prod.mk.inj heq
            obtain ⟨text, htext, hskip⟩ := ihElements _ _ _ hvs
            refine ⟨_, .array hws htext, ?_⟩
            rw [hbs, hskip]
            simp only [List.cons_append, List.append_assoc, List.nil_append]
        case h_2 =>
          split at h
          case h_1 s bs₁ hs =>
            obtain ⟨rfl, rfl⟩ := Prod.mk.inj (Option.some.inj h)
            obtain ⟨text, htext, rfl⟩ := readString_eq_some.mp hs
            exact ⟨text, .string htext, rfl⟩
          case h_2 =>
            split at h
            case h_1 hlit => exact readLiteral_sound (hlit.trans h)
            case h_2 => exact readNumber_sound h
    · rw [readElements] at h
      obtain ⟨⟨v, bs₁⟩, hv, hrest⟩ := Option.bind_eq_some_iff.mp h
      obtain ⟨text, htext, rfl⟩ := ihValue _ _ _ hv
      obtain ⟨ws, hws, hbs⟩ := exists_ws bs₁
      simp only at hrest
      split at hrest
      case h_1 bs₂ hcomma =>
        obtain ⟨⟨vs', bs₃⟩, hvs, hpure⟩ := Option.bind_eq_some_iff.mp hrest
        obtain ⟨rfl, rfl⟩ := Prod.mk.inj (Option.some.inj hpure)
        obtain ⟨texts, htexts, hskip⟩ := ihElements _ _ _ hvs
        obtain ⟨ws', hws', hbs'⟩ := exists_ws bs₂
        refine ⟨_, .element htext hws hws' htexts, ?_⟩
        rw [hbs, expect_eq_some.mp hcomma, hbs', hskip]
        simp only [List.cons_append, List.append_assoc]
      case h_2 =>
        obtain ⟨bs₂, hclose, hpure⟩ := Option.bind_eq_some_iff.mp hrest
        obtain ⟨rfl, rfl⟩ := Prod.mk.inj (Option.some.inj hpure)
        refine ⟨_, .lastElement htext hws, ?_⟩
        rw [hbs, expect_eq_some.mp hclose, List.append_assoc]
    · rw [readMembers] at h
      obtain ⟨⟨key, bs₁⟩, hkey, hrest⟩ := Option.bind_eq_some_iff.mp h
      obtain ⟨bs₂, hcolon, hrest⟩ := Option.bind_eq_some_iff.mp hrest
      obtain ⟨⟨v, bs₃⟩, hv, hrest⟩ := Option.bind_eq_some_iff.mp hrest
      obtain ⟨name, hname, rfl⟩ := readString_eq_some.mp hkey
      obtain ⟨ws, hws, hbs⟩ := exists_ws bs₁
      obtain ⟨ws', hws', hbs'⟩ := exists_ws bs₂
      obtain ⟨text, htext, hskip⟩ := ihValue _ _ _ hv
      obtain ⟨ws'', hws'', hbs''⟩ := exists_ws bs₃
      simp only at hrest
      split at hrest
      case h_1 bs₄ hcomma =>
        obtain ⟨⟨ms', bs₅⟩, hms, hpure⟩ := Option.bind_eq_some_iff.mp hrest
        obtain ⟨rfl, rfl⟩ := Prod.mk.inj (Option.some.inj hpure)
        obtain ⟨texts, htexts, hskip'⟩ := ihMembers _ _ _ hms
        obtain ⟨wt, hwt, hbt⟩ := exists_ws bs₄
        refine ⟨_, .member hname hws hws' htext hws'' hwt htexts, ?_⟩
        rw [hbs, expect_eq_some.mp hcolon, hbs', hskip, hbs'', expect_eq_some.mp hcomma, hbt,
          hskip']
        simp only [List.cons_append, List.append_assoc]
      case h_2 =>
        obtain ⟨bs₄, hclose, hpure⟩ := Option.bind_eq_some_iff.mp hrest
        obtain ⟨rfl, rfl⟩ := Prod.mk.inj (Option.some.inj hpure)
        refine ⟨_, .lastMember hname hws hws' htext hws'', ?_⟩
        rw [hbs, expect_eq_some.mp hcolon, hbs', hskip, hbs'', expect_eq_some.mp hclose]
        simp only [List.cons_append, List.append_assoc]

/-! ## What is derived is decoded -/

theorem StringText.head {s text : Bytes} (h : StringText s text) :
    ∃ bs, text = '"'.byte :: bs := by
  cases h
  exact ⟨_, rfl⟩

/-- A value begins with a byte that is no white space and closes nothing. -/
theorem Derives.head {v : Json} {text : Bytes} (h : Derives (.value v) text) :
    ∃ b bs, text = b :: bs ∧ isWs b = Bool.false ∧ b ≠ ']'.byte := by
  cases h with
  | null => exact ⟨_, _, rfl, rfl, by decide⟩
  | true => exact ⟨_, _, rfl, rfl, by decide⟩
  | false => exact ⟨_, _, rfl, rfl, by decide⟩
  | number hn =>
    obtain ⟨b, bs, rfl, hall⟩ := isNumber_head hn
    have hb := hall b List.mem_cons_self
    refine ⟨b, bs, rfl, ?_, ?_⟩
    · by_contra hws
      simp only [Bool.not_eq_false, isWs, Bool.or_eq_true, beq_iff_eq] at hws
      rcases hws with ((rfl | rfl) | rfl) | rfl <;> cases hb
    · rintro rfl
      cases hb
  | string hs =>
    obtain ⟨bs, rfl⟩ := hs.head
    exact ⟨_, _, rfl, rfl, by decide⟩
  | emptyArray => exact ⟨_, _, rfl, rfl, by decide⟩
  | array => exact ⟨_, _, rfl, rfl, by decide⟩
  | emptyObject => exact ⟨_, _, rfl, rfl, by decide⟩
  | object => exact ⟨_, _, rfl, rfl, by decide⟩

theorem skipWs_value {v : Json} {text : Bytes} (h : Derives (.value v) text) (rest : Bytes) :
    skipWs (text ++ rest) = text ++ rest := by
  obtain ⟨b, bs, rfl, hb, -⟩ := h.head
  exact skipWs_cons hb _

/-- A list of elements begins with a value. -/
theorem Derives.elements_head {vs : List Json} {text : Bytes} (h : Derives (.elements vs) text) :
    ∃ b bs, text = b :: bs ∧ isWs b = Bool.false ∧ b ≠ ']'.byte := by
  cases h with
  | lastElement hv =>
    obtain ⟨b, bs, rfl, hb⟩ := hv.head
    exact ⟨b, _, rfl, hb⟩
  | element hv =>
    obtain ⟨b, bs, rfl, hb⟩ := hv.head
    exact ⟨b, _, rfl, hb⟩

/-- A list of members begins with a quote. -/
theorem Derives.members_head {ms : List (Bytes × Json)} {text : Bytes}
    (h : Derives (.members ms) text) : ∃ bs, text = '"'.byte :: bs := by
  cases h with
  | lastMember hk =>
    obtain ⟨bs, rfl⟩ := hk.head
    exact ⟨_, rfl⟩
  | member hk =>
    obtain ⟨bs, rfl⟩ := hk.head
    exact ⟨_, rfl⟩

theorem follow_ws {ws : Bytes} (h : Ws ws) {c : UInt8} (hc : isNumberByte c = false)
    (rest : Bytes) : Follow (ws ++ c :: rest) := by
  cases ws with
  | nil =>
    intro b hb
    obtain rfl := Option.some.inj hb
    exact hc
  | cons d ws =>
    intro b hb
    obtain rfl := Option.some.inj hb
    have hd := h d List.mem_cons_self
    simp only [isWs, Bool.or_eq_true, beq_iff_eq] at hd
    rcases hd with ((rfl | rfl) | rfl) | rfl <;> rfl

/-- A number is read by `readNumber` and nothing before it. -/
theorem readValue_number {text rest : Bytes} (h : isNumber text = true) (hr : Follow rest)
    (fuel : ℕ) : readValue (fuel + 1) (text ++ rest) = some (.number text, rest) := by
  have hnum := readNumber_append h hr
  obtain ⟨b, bs, rfl, hall⟩ := isNumber_head h
  have hb := hall b List.mem_cons_self
  have hne : ∀ c, isNumberByte c = false → expect c (b :: bs ++ rest) = none := by
    intro c hc
    refine expect_cons_of_ne ?_ _
    rintro rfl
    exact nomatch hb.symm.trans hc
  have hstring : readString (b :: bs ++ rest) = none := by
    rw [readString, hne '"'.byte rfl]
    rfl
  have hliteral : readLiteral (b :: bs ++ rest) = none := by
    have hstrip : ∀ c cs, isNumberByte c = false →
        stripPrefix (c :: cs) (b :: bs ++ rest) = none := by
      intro c cs hc
      rw [stripPrefix, hne c hc]
      rfl
    rw [readLiteral, show ascii "null" = 'n'.byte :: ascii "ull" from rfl, hstrip _ _ rfl,
      show ascii "true" = 't'.byte :: ascii "rue" from rfl, hstrip _ _ rfl,
      show ascii "false" = 'f'.byte :: ascii "alse" from rfl, hstrip _ _ rfl]
    rfl
  rw [readValue, hne '{'.byte rfl, hne '['.byte rfl]
  simp only [hstring, hliteral, hnum]

/-- What the parser makes of the text of a phrase, with `rest` behind it. -/
def Reads (fuel : ℕ) (text rest : Bytes) : Phrase → Prop
  | .value v => text.length ≤ fuel → Follow rest → readValue fuel (text ++ rest) = some (v, rest)
  | .elements vs =>
    text.length < fuel → readElements fuel (text ++ ']'.byte :: rest) = some (vs, rest)
  | .members ms =>
    text.length < fuel → readMembers fuel (text ++ '}'.byte :: rest) = some (ms, rest)

/-- The parser reads every phrase, given fuel for each of its bytes. -/
theorem Derives.complete {ph : Phrase} {text : Bytes} (h : Derives ph text) :
    ∀ fuel rest, Reads fuel text rest ph := by
  induction h with
  | null =>
    intro fuel rest hf _
    obtain ⟨fuel, rfl⟩ := Nat.exists_eq_succ_of_ne_zero (Nat.ne_zero_of_lt hf)
    rfl
  | true =>
    intro fuel rest hf _
    obtain ⟨fuel, rfl⟩ := Nat.exists_eq_succ_of_ne_zero (Nat.ne_zero_of_lt hf)
    rfl
  | false =>
    intro fuel rest hf _
    obtain ⟨fuel, rfl⟩ := Nat.exists_eq_succ_of_ne_zero (Nat.ne_zero_of_lt hf)
    rfl
  | number hn =>
    intro fuel rest hf hr
    obtain ⟨b, bs, rfl, -⟩ := isNumber_head hn
    obtain ⟨fuel, rfl⟩ := Nat.exists_eq_succ_of_ne_zero (Nat.ne_zero_of_lt hf)
    exact readValue_number hn hr fuel
  | @string s text hs =>
    intro fuel rest hf _
    have hread : readString (text ++ rest) = some (s, rest) :=
      readString_eq_some.mpr ⟨text, hs, rfl⟩
    obtain ⟨bs, rfl⟩ := hs.head
    obtain ⟨fuel, rfl⟩ := Nat.exists_eq_succ_of_ne_zero (Nat.ne_zero_of_lt hf)
    rw [List.cons_append] at hread ⊢
    rw [readValue, expect_cons_of_ne (by decide), expect_cons_of_ne (by decide)]
    simp only [hread]
  | @emptyArray ws hws =>
    intro fuel rest hf _
    obtain ⟨fuel, rfl⟩ := Nat.exists_eq_succ_of_ne_zero (Nat.ne_zero_of_lt hf)
    simp only [List.cons_append, List.append_assoc, List.nil_append]
    rw [readValue, expect_cons_of_ne (by decide), expect_cons_self]
    simp only [skipWs_append hws, skipWs_cons (b := ']'.byte) rfl, expect_cons_self]
  | @array vs ws text hws h ih =>
    intro fuel rest hf _
    obtain ⟨fuel, rfl⟩ := Nat.exists_eq_succ_of_ne_zero (Nat.ne_zero_of_lt hf)
    obtain ⟨b, bs, htext, hb, hne⟩ := h.elements_head
    have hread := ih fuel rest (by
      simp only [List.length_append, List.length_cons] at hf
      omega)
    have hskip : skipWs (text ++ ']'.byte :: rest) = text ++ ']'.byte :: rest := by
      rw [htext]
      exact skipWs_cons hb _
    have hopen : expect ']'.byte (text ++ ']'.byte :: rest) = none := by
      rw [htext]
      exact expect_cons_of_ne hne _
    simp only [List.cons_append, List.append_assoc, List.nil_append]
    rw [readValue, expect_cons_of_ne (by decide), expect_cons_self]
    simp only [skipWs_append hws, hskip, hopen, hread, Option.map_some]
  | @emptyObject ws hws =>
    intro fuel rest hf _
    obtain ⟨fuel, rfl⟩ := Nat.exists_eq_succ_of_ne_zero (Nat.ne_zero_of_lt hf)
    simp only [List.cons_append, List.append_assoc, List.nil_append]
    rw [readValue, expect_cons_self]
    simp only [skipWs_append hws, skipWs_cons (b := '}'.byte) rfl, expect_cons_self]
  | @object ms ws text hws h ih =>
    intro fuel rest hf _
    obtain ⟨fuel, rfl⟩ := Nat.exists_eq_succ_of_ne_zero (Nat.ne_zero_of_lt hf)
    obtain ⟨bs, htext⟩ := h.members_head
    have hread := ih fuel rest (by
      simp only [List.length_append, List.length_cons] at hf
      omega)
    have hskip : skipWs (text ++ '}'.byte :: rest) = text ++ '}'.byte :: rest := by
      rw [htext]
      exact skipWs_cons rfl _
    have hopen : expect '}'.byte (text ++ '}'.byte :: rest) = none := by
      rw [htext]
      exact expect_cons_of_ne (by decide) _
    simp only [List.cons_append, List.append_assoc, List.nil_append]
    rw [readValue, expect_cons_self]
    simp only [skipWs_append hws, hskip, hopen, hread, Option.map_some]
  | @lastElement v text ws h hws ih =>
    intro fuel rest hf
    obtain ⟨fuel, rfl⟩ := Nat.exists_eq_succ_of_ne_zero (Nat.ne_zero_of_lt hf)
    have hread := ih fuel (ws ++ ']'.byte :: rest) (by
      rw [List.length_append] at hf
      omega) (follow_ws hws rfl rest)
    rw [List.append_assoc, readElements, hread]
    simp only [Option.bind_eq_bind, Option.bind_some, skipWs_append hws,
      skipWs_cons (b := ']'.byte) rfl, expect_cons_self, Option.pure_def,
      expect_cons_of_ne (b := ']'.byte) (c := ','.byte) (by decide)]
  | @element v vs text ws ws' texts h hws hws' hs ih ihs =>
    intro fuel rest hf
    obtain ⟨fuel, rfl⟩ := Nat.exists_eq_succ_of_ne_zero (Nat.ne_zero_of_lt hf)
    simp only [List.length_append, List.length_cons] at hf
    have hread := ih fuel (ws ++ ','.byte :: (ws' ++ (texts ++ ']'.byte :: rest))) (by omega)
      (follow_ws hws rfl _)
    have hreads := ihs fuel rest (by omega)
    obtain ⟨b, bs, htexts, hb, -⟩ := hs.elements_head
    have hskip : skipWs (texts ++ ']'.byte :: rest) = texts ++ ']'.byte :: rest := by
      rw [htexts]
      exact skipWs_cons hb _
    simp only [List.cons_append, List.append_assoc]
    rw [readElements, hread]
    simp only [Option.bind_eq_bind, Option.bind_some, skipWs_append hws, skipWs_append hws',
      skipWs_cons (b := ','.byte) rfl, expect_cons_self, hskip, hreads, Option.pure_def]
  | @lastMember key name text ws ws' ws'' v hk hws hws' h hws'' ih =>
    intro fuel rest hf
    obtain ⟨fuel, rfl⟩ := Nat.exists_eq_succ_of_ne_zero (Nat.ne_zero_of_lt hf)
    simp only [List.length_append, List.length_cons] at hf
    have hread := ih fuel (ws'' ++ '}'.byte :: rest) (by omega) (follow_ws hws'' rfl rest)
    simp only [List.cons_append, List.append_assoc]
    rw [readMembers, readString_eq_some.mpr ⟨name, hk, rfl⟩]
    simp only [Option.bind_eq_bind, Option.bind_some, skipWs_append hws, skipWs_append hws',
      skipWs_append hws'', skipWs_cons (b := ':'.byte) rfl, skipWs_cons (b := '}'.byte) rfl,
      expect_cons_self, skipWs_value h, hread, Option.pure_def,
      expect_cons_of_ne (b := '}'.byte) (c := ','.byte) (by decide)]
  | @member key name text texts ws ws' ws'' wt v ms hk hws hws' h hws'' hwt hs ih ihs =>
    intro fuel rest hf
    obtain ⟨fuel, rfl⟩ := Nat.exists_eq_succ_of_ne_zero (Nat.ne_zero_of_lt hf)
    simp only [List.length_append, List.length_cons] at hf
    have hread := ih fuel (ws'' ++ ','.byte :: (wt ++ (texts ++ '}'.byte :: rest))) (by omega)
      (follow_ws hws'' rfl _)
    have hreads := ihs fuel rest (by omega)
    obtain ⟨bs, htexts⟩ := hs.members_head
    have hskip : skipWs (texts ++ '}'.byte :: rest) = texts ++ '}'.byte :: rest := by
      rw [htexts]
      exact skipWs_cons rfl _
    simp only [List.cons_append, List.append_assoc]
    rw [readMembers, readString_eq_some.mpr ⟨name, hk, rfl⟩]
    simp only [Option.bind_eq_bind, Option.bind_some, skipWs_append hws, skipWs_append hws',
      skipWs_append hws'', skipWs_append hwt, skipWs_cons (b := ':'.byte) rfl,
      skipWs_cons (b := ','.byte) rfl, expect_cons_self, skipWs_value h, hread, hskip, hreads,
      Option.pure_def]

/-- **The parser accepts the documents of the grammar**, with the value each derives. -/
theorem parse_eq_some {text : Bytes} {v : Json} : parse text = some v ↔ Document v text := by
  constructor
  · intro h
    rw [parse] at h
    split at h
    case h_1 w rest hread =>
      split at h
      case isTrue hrest =>
        obtain rfl := Option.some.inj h
        obtain ⟨t, ht, hskip⟩ := (sound _).1 _ _ _ hread
        obtain ⟨ws, hws, hbs⟩ := exists_ws text
        obtain ⟨ws', hws', hbs'⟩ := exists_ws rest
        rw [hrest, List.append_nil] at hbs'
        rw [hbs, hskip, hbs', ← List.append_assoc]
        exact .text hws ht hws'
      case isFalse => cases h
    case h_2 => cases h
  · rintro ⟨hws, h, hws'⟩
    rename_i ws text ws'
    have hskip : skipWs (ws ++ text ++ ws') = text ++ ws' := by
      rw [List.append_assoc, skipWs_append hws, skipWs_value h]
    have hfollow : Follow ws' := by
      intro b hb
      have hb' := hws' b (List.mem_of_mem_head? hb)
      simp only [isWs, Bool.or_eq_true, beq_iff_eq] at hb'
      rcases hb' with ((rfl | rfl) | rfl) | rfl <;> rfl
    rw [parse, hskip, h.complete _ ws' (by rw [List.length_append]; exact Nat.le_add_right _ _)
      hfollow]
    exact if_pos (skipWs_of_ws hws')

end Json
