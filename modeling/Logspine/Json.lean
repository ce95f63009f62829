import Logspine.Bytes

/-!
# JSON over bytes

Values and the grammar of RFC 8259 over byte strings, with every string byte from
0x80 on taken literally. A number is kept as the text it has in the document, an object
as the list of its members in order, names included that occur twice.

`Derives` relates a value to each of its texts. An encoder is correct when it derives
its value; `Logspine.JsonParser` decodes what is derived.
-/

/-- A JSON value. -/
inductive Json where
  | null : Json
  | bool (value : Bool) : Json
  | number (text : Bytes) : Json
  | string (text : Bytes) : Json
  | array (elements : List Json) : Json
  | object (members : List (Bytes × Json)) : Json

namespace Json

/-! ## White space and numbers -/

/-- A white space byte. -/
def isWs (b : UInt8) : Bool :=
  b == ' '.byte || b == '\t'.byte || b == '\n'.byte || b == '\r'.byte

/-- White space. -/
def Ws (bs : Bytes) : Prop := ∀ b ∈ bs, isWs b = true

theorem ws_nil : Ws [] := nofun

/-- Drop a sign. -/
def unsign : Bytes → Bytes
  | [] => []
  | s :: bs => if s = '+'.byte ∨ s = '-'.byte then bs else s :: bs

/-- `exp = e [ minus / plus ] 1*DIGIT`, or nothing -/
def isExp : Bytes → Bool
  | [] => true
  | e :: bs =>
    (e == 'e'.byte || e == 'E'.byte) && !(unsign bs).isEmpty && (unsign bs).all isDigit

/-- `1*DIGIT [ exp ]`, what follows a decimal point -/
def isFraction : Bytes → Bool
  | [] => false
  | d :: bs => isDigit d && isExp (bs.dropWhile isDigit)

/-- `[ frac ] [ exp ]` with `frac = decimal-point 1*DIGIT` -/
def isFracExp : Bytes → Bool
  | [] => true
  | p :: bs => if p = '.'.byte then isFraction bs else isExp (p :: bs)

/-- `int [ frac ] [ exp ]` with `int = zero / ( digit1-9 *DIGIT )` -/
def isUnsigned : Bytes → Bool
  | [] => false
  | d :: bs =>
    if d = '0'.byte then isFracExp bs else isDigit d && isFracExp (bs.dropWhile isDigit)

/-- `number = [ minus ] int [ frac ] [ exp ]` -/
def isNumber : Bytes → Bool
  | [] => false
  | b :: bs => if b = '-'.byte then isUnsigned bs else isUnsigned (b :: bs)

/-! ## Strings -/

/-- What one `char` of a string stands for: a byte, or a UTF-16 code unit. -/
inductive StringUnit where
  | byte (b : UInt8) : StringUnit
  | code (u : ℕ) : StringUnit

/-- The UTF-8 encoding of a code point. -/
def utf8 (c : ℕ) : Bytes :=
  if c < 0x80 then [.ofNat c]
  else if c < 0x800 then [.ofNat (0xc0 + c / 0x40), .ofNat (0x80 + c % 0x40)]
  else if c < 0x10000 then
    [.ofNat (0xe0 + c / 0x1000), .ofNat (0x80 + c / 0x40 % 0x40), .ofNat (0x80 + c % 0x40)]
  else
    [.ofNat (0xf0 + c / 0x40000), .ofNat (0x80 + c / 0x1000 % 0x40),
      .ofNat (0x80 + c / 0x40 % 0x40), .ofNat (0x80 + c % 0x40)]

/-- A leading surrogate. -/
def isLeading (u : ℕ) : Bool := 0xd800 ≤ u && u < 0xdc00

/-- A trailing surrogate. -/
def isTrailing (u : ℕ) : Bool := 0xdc00 ≤ u && u < 0xe000

/-- The bytes of a string: two surrogates that follow each other are one code point. -/
def decodeUnits : List StringUnit → Bytes
  | [] => []
  | .byte b :: us => b :: decodeUnits us
  | .code u :: .code v :: us =>
    if isLeading u && isTrailing v then
      utf8 (0x10000 + (u - 0xd800) * 0x400 + (v - 0xdc00)) ++ decodeUnits us
    else utf8 u ++ decodeUnits (.code v :: us)
  | .code u :: us => utf8 u ++ decodeUnits us

theorem decodeUnits_code {u : ℕ} (h : isLeading u = false) (us : List StringUnit) :
    decodeUnits (.code u :: us) = utf8 u ++ decodeUnits us := by
  cases us with
  | nil => rfl
  | cons v us =>
    cases v with
    | byte b => rfl
    | code v => rw [decodeUnits, h, Bool.false_and, if_neg Bool.false_ne_true]

/-- The byte a two-character escape stands for. -/
def escapedByte (c : UInt8) : Option UInt8 :=
  if c = '"'.byte ∨ c = '\\'.byte ∨ c = '/'.byte then some c
  else if c = 'b'.byte then some 0x08
  else if c = 'f'.byte then some 0x0c
  else if c = 'n'.byte then some 0x0a
  else if c = 'r'.byte then some 0x0d
  else if c = 't'.byte then some 0x09
  else none

/-- The value of a hexadecimal digit. -/
def hexDigit (b : UInt8) : Option ℕ :=
  if isDigit b then some (b.toNat - '0'.byte.toNat)
  else if 'A'.byte ≤ b ∧ b ≤ 'F'.byte then some (b.toNat - 'A'.byte.toNat + 10)
  else if 'a'.byte ≤ b ∧ b ≤ 'f'.byte then some (b.toNat - 'a'.byte.toNat + 10)
  else none

/-- The value of four hexadecimal digits. -/
def hex4 (a b c d : UInt8) : Option ℕ := do
  let a ← hexDigit a
  let b ← hexDigit b
  let c ← hexDigit c
  let d ← hexDigit d
  return ((a * 16 + b) * 16 + c) * 16 + d

/-- A `char` and its text. -/
inductive UnitText : StringUnit → Bytes → Prop where
  | literal {b : UInt8} (hc : 0x20 ≤ b) (hq : b ≠ '"'.byte) (hb : b ≠ '\\'.byte) :
    UnitText (.byte b) [b]
  | escape {c b : UInt8} (h : escapedByte c = some b) : UnitText (.byte b) ['\\'.byte, c]
  | unicode {a b c d : UInt8} {u : ℕ} (h : hex4 a b c d = some u) :
    UnitText (.code u) ['\\'.byte, 'u'.byte, a, b, c, d]

/-- The `char`s of a string and their text. -/
inductive UnitsText : List StringUnit → Bytes → Prop where
  | nil : UnitsText [] []
  | cons {u : StringUnit} {us : List StringUnit} {text texts : Bytes} (h : UnitText u text)
    (hs : UnitsText us texts) : UnitsText (u :: us) (text ++ texts)

/-- A string and its text, with the quotes. -/
inductive StringText : Bytes → Bytes → Prop where
  | quoted {us : List StringUnit} {body : Bytes} (h : UnitsText us body) :
    StringText (decodeUnits us) ('"'.byte :: body ++ ['"'.byte])

/-! ## Values -/

/-- A phrase of the grammar. -/
inductive Phrase where
  | value (v : Json) : Phrase
  | elements (vs : List Json) : Phrase
  | members (ms : List (Bytes × Json)) : Phrase

/-- A phrase and its text; white space belongs to the structural character it surrounds. -/
inductive Derives : Phrase → Bytes → Prop where
  | null : Derives (.value .null) (ascii "null")
  | true : Derives (.value (.bool true)) (ascii "true")
  | false : Derives (.value (.bool false)) (ascii "false")
  | number {text : Bytes} (h : isNumber text = Bool.true) : Derives (.value (.number text)) text
  | string {s text : Bytes} (h : StringText s text) : Derives (.value (.string s)) text
  | emptyArray {ws : Bytes} (hws : Ws ws) :
    Derives (.value (.array [])) ('['.byte :: ws ++ [']'.byte])
  | array {vs : List Json} {ws text : Bytes} (hws : Ws ws) (h : Derives (.elements vs) text) :
    Derives (.value (.array vs)) ('['.byte :: ws ++ text ++ [']'.byte])
  | emptyObject {ws : Bytes} (hws : Ws ws) :
    Derives (.value (.object [])) ('{'.byte :: ws ++ ['}'.byte])
  | object {ms : List (Bytes × Json)} {ws text : Bytes} (hws : Ws ws)
    (h : Derives (.members ms) text) :
    Derives (.value (.object ms)) ('{'.byte :: ws ++ text ++ ['}'.byte])
  | lastElement {v : Json} {text ws : Bytes} (h : Derives (.value v) text) (hws : Ws ws) :
    Derives (.elements [v]) (text ++ ws)
  | element {v : Json} {vs : List Json} {text ws ws' texts : Bytes} (h : Derives (.value v) text)
    (hws : Ws ws) (hws' : Ws ws') (hs : Derives (.elements vs) texts) :
    Derives (.elements (v :: vs)) (text ++ ws ++ ','.byte :: (ws' ++ texts))
  | lastMember {key name text ws ws' ws'' : Bytes} {v : Json} (hk : StringText key name)
    (hws : Ws ws) (hws' : Ws ws') (h : Derives (.value v) text) (hws'' : Ws ws'') :
    Derives (.members [(key, v)]) (name ++ ws ++ ':'.byte :: (ws' ++ text ++ ws''))
  | member {key name text texts ws ws' ws'' wt : Bytes} {v : Json} {ms : List (Bytes × Json)}
    (hk : StringText key name) (hws : Ws ws) (hws' : Ws ws') (h : Derives (.value v) text)
    (hws'' : Ws ws'') (hwt : Ws wt) (hs : Derives (.members ms) texts) :
    Derives (.members ((key, v) :: ms))
      (name ++ ws ++ ':'.byte :: (ws' ++ text ++ ws'' ++ ','.byte :: (wt ++ texts)))

/-- A document: a value with white space around it. -/
inductive Document : Json → Bytes → Prop where
  | text {v : Json} {ws text ws' : Bytes} (hws : Ws ws) (h : Derives (.value v) text)
    (hws' : Ws ws') : Document v (ws ++ text ++ ws')

end Json
