import Logspine.Bytes

/-!
# UTF-8

`ValidUtf8` is Lean's own notion of valid UTF-8, for byte strings. A lead byte says how
many continuation bytes follow it, so that a valid text is cut at a character exactly
where no continuation byte follows the cut (`ValidUtf8.take_append_iff`).
-/

/-- The bytes are the UTF-8 encoding of some characters. -/
def ValidUtf8 (bs : Bytes) : Prop := bs.toByteArray.IsValidUTF8

theorem validUtf8_iff {bs : Bytes} :
    ValidUtf8 bs ↔ ∃ cs : List Char, bs = cs.flatMap String.utf8EncodeChar := by
  constructor
  · rintro ⟨cs, h⟩
    exact ⟨cs, List.toByteArray_inj.mp h⟩
  · rintro ⟨cs, rfl⟩
    exact ⟨cs, rfl⟩

theorem validUtf8_nil : ValidUtf8 [] := validUtf8_iff.mpr ⟨[], rfl⟩

theorem validUtf8_encodeChar (c : Char) : ValidUtf8 (String.utf8EncodeChar c) :=
  validUtf8_iff.mpr ⟨[c], (List.append_nil _).symm⟩

theorem ValidUtf8.append {bs bs' : Bytes} (h : ValidUtf8 bs) (h' : ValidUtf8 bs') :
    ValidUtf8 (bs ++ bs') := by
  obtain ⟨cs, rfl⟩ := validUtf8_iff.mp h
  obtain ⟨cs', rfl⟩ := validUtf8_iff.mp h'
  exact validUtf8_iff.mpr ⟨cs ++ cs', List.flatMap_append.symm⟩

/-! ## ASCII -/

theorem utf8EncodeChar_ofNat : ∀ n < 128,
    String.utf8EncodeChar (Char.ofNat n) = [UInt8.ofNat n] := by decide

/-- A text of ASCII bytes is valid. -/
theorem validUtf8_of_ascii {bs : Bytes} (h : ∀ b ∈ bs, b < 0x80) : ValidUtf8 bs := by
  induction bs with
  | nil => exact validUtf8_nil
  | cons b bs ih =>
    have hchar := utf8EncodeChar_ofNat b.toNat
      (UInt8.lt_iff_toNat_lt.mp (h b List.mem_cons_self))
    rw [UInt8.ofNat_toNat] at hchar
    have hvalid := validUtf8_encodeChar (Char.ofNat b.toNat)
    rw [hchar] at hvalid
    exact hvalid.append (ih fun b' hb' => h b' (List.mem_cons_of_mem b hb'))

/-! ## Lead and continuation bytes -/

/-- A byte `10xxxxxx`. -/
def isContinuation (b : UInt8) : Bool := 0x80 ≤ b && b < 0xc0

/-- How many continuation bytes a lead byte announces. -/
def followers (b : UInt8) : ℕ :=
  if b < 0x80 then 0 else if b < 0xe0 then 1 else if b < 0xf0 then 2 else 3

theorem isContinuation_ofNat {n : ℕ} (h : n < 256) :
    isContinuation (.ofNat n) = (decide (128 ≤ n) && decide (n < 192)) := by
  rw [isContinuation, Bool.eq_iff_iff]
  simp only [Bool.and_eq_true, decide_eq_true_eq, UInt8.le_iff_toNat_le, UInt8.lt_iff_toNat_lt,
    UInt8.toNat_ofNat', Nat.mod_eq_of_lt h]
  exact Iff.rfl

theorem followers_ofNat {n : ℕ} (h : n < 256) : followers (.ofNat n) =
    if n < 128 then 0 else if n < 224 then 1 else if n < 240 then 2 else 3 := by
  simp only [followers, UInt8.lt_iff_toNat_lt, UInt8.toNat_ofNat', Nat.mod_eq_of_lt h]
  rfl

theorem isContinuation_mod (n : ℕ) : isContinuation (.ofNat (n % 0x40 + 0x80)) = true := by
  rw [isContinuation_ofNat (by omega), Bool.and_eq_true, decide_eq_true_eq, decide_eq_true_eq]
  omega

/-- What a character is encoded to: a lead byte and the continuation bytes it announces. -/
theorem utf8EncodeChar_eq_cons (c : Char) : ∃ b bs, String.utf8EncodeChar c = b :: bs ∧
    isContinuation b = false ∧ followers b = bs.length ∧
    ∀ b' ∈ bs, isContinuation b' = true := by
  have hlead : ∀ n < 256, n < 128 ∨ 192 ≤ n → isContinuation (.ofNat n) = false := by
    intro n h hn
    rw [isContinuation_ofNat h, Bool.and_eq_false_iff, decide_eq_false_iff_not,
      decide_eq_false_iff_not]
    omega
  rw [String.utf8EncodeChar]
  split
  case isTrue hone =>
    refine ⟨_, _, rfl, hlead _ (by omega) (by omega), ?_, nofun⟩
    rw [followers_ofNat (by omega), if_pos (by omega)]
    rfl
  case isFalse =>
  split
  case isTrue htwo =>
    refine ⟨_, _, rfl, hlead _ (by omega) (by omega), ?_, ?_⟩
    · rw [followers_ofNat (by omega), if_neg (by omega), if_pos (by omega)]
      rfl
    · exact List.forall_mem_singleton.mpr (isContinuation_mod _)
  case isFalse =>
  split
  case isTrue hthree =>
    refine ⟨_, _, rfl, hlead _ (by omega) (by omega), ?_, ?_⟩
    · rw [followers_ofNat (by omega), if_neg (by omega), if_neg (by omega), if_pos (by omega)]
      rfl
    · exact List.forall_mem_cons.mpr ⟨isContinuation_mod _,
        List.forall_mem_singleton.mpr (isContinuation_mod _)⟩
  case isFalse =>
    refine ⟨_, _, rfl, hlead _ (by omega) (by omega), ?_, ?_⟩
    · rw [followers_ofNat (by omega), if_neg (by omega), if_neg (by omega), if_neg (by omega)]
      rfl
    · exact List.forall_mem_cons.mpr ⟨isContinuation_mod _,
        List.forall_mem_cons.mpr ⟨isContinuation_mod _,
          List.forall_mem_singleton.mpr (isContinuation_mod _)⟩⟩

/-- A character is one ASCII byte, or none of its bytes is ASCII. -/
theorem utf8EncodeChar_ascii_or (c : Char) :
    (∃ b < 0x80, String.utf8EncodeChar c = [b]) ∨ ∀ b ∈ String.utf8EncodeChar c, 0x80 ≤ b := by
  obtain ⟨b, bs, heq, -, hlength, hbs⟩ := utf8EncodeChar_eq_cons c
  rw [heq]
  by_cases hb : b < 0x80
  · rw [followers, if_pos hb] at hlength
    exact .inl ⟨b, hb, by rw [List.length_eq_zero_iff.mp hlength.symm]⟩
  · refine .inr (List.forall_mem_cons.mpr ⟨UInt8.not_lt.mp hb, fun b' hb' => ?_⟩)
    have hcont := hbs b' hb'
    rw [isContinuation, Bool.and_eq_true, decide_eq_true_eq] at hcont
    exact hcont.1

/-! ## Cutting a text -/

/-- Lead bytes, each with as many continuation bytes as it announces; `n` more were announced
by what came before. -/
def WellFramed : ℕ → Bytes → Prop
  | n, [] => n = 0
  | 0, b :: bs => isContinuation b = false ∧ WellFramed (followers b) bs
  | n + 1, b :: bs => isContinuation b = true ∧ WellFramed n bs

theorem wellFramed_append {bs : Bytes} (h : ∀ b ∈ bs, isContinuation b = true) {rest : Bytes}
    (hrest : WellFramed 0 rest) : WellFramed bs.length (bs ++ rest) := by
  induction bs with
  | nil => exact hrest
  | cons b bs ih =>
    exact ⟨h b List.mem_cons_self, ih fun b' hb' => h b' (List.mem_cons_of_mem b hb')⟩

theorem ValidUtf8.wellFramed {bs : Bytes} (h : ValidUtf8 bs) : WellFramed 0 bs := by
  obtain ⟨cs, rfl⟩ := validUtf8_iff.mp h
  clear h
  induction cs with
  | nil => rfl
  | cons c cs ih =>
    obtain ⟨b, bs, heq, hlead, hfollowers, hbs⟩ := utf8EncodeChar_eq_cons c
    rw [List.flatMap_cons, heq]
    refine ⟨hlead, ?_⟩
    rw [hfollowers]
    exact wellFramed_append hbs ih

/-- What a cut through a well-framed text leaves is well-framed with an ASCII text behind it
only if the cut is at a character. -/
theorem WellFramed.getElem_of_take {n : ℕ} {bs tail : Bytes} {k : ℕ} (h : WellFramed n bs)
    (htail : ∀ b ∈ tail, isContinuation b = false) (hcut : WellFramed n (bs.take k ++ tail)) :
    ∀ b, bs[k]? = some b → isContinuation b = false := by
  induction k generalizing n bs with
  | zero =>
    intro b hb
    have hn : n = 0 := by
      cases n with
      | zero => rfl
      | succ n =>
        cases tail with
        | nil => exact hcut
        | cons t tail => exact absurd hcut.1 (by rw [htail t List.mem_cons_self]; decide)
    subst hn
    cases bs with
    | nil => cases hb
    | cons b' bs =>
      obtain rfl := Option.some.inj hb
      exact h.1
  | succ k ih =>
    intro b hb
    cases bs with
    | nil => cases hb
    | cons b' bs =>
      cases n with
      | zero => exact ih h.2 hcut.2 b hb
      | succ n => exact ih h.2 hcut.2 b hb

/-- A valid text that is cut at a character is valid. -/
theorem ValidUtf8.take {bs : Bytes} (h : ValidUtf8 bs) {k : ℕ}
    (hcut : ∀ b, bs[k]? = some b → isContinuation b = false) : ValidUtf8 (bs.take k) := by
  obtain ⟨cs, rfl⟩ := validUtf8_iff.mp h
  clear h
  induction cs generalizing k with
  | nil => rw [List.flatMap_nil, List.take_nil]; exact validUtf8_nil
  | cons c cs ih =>
    rw [List.flatMap_cons] at hcut ⊢
    rcases Nat.lt_or_ge k (String.utf8EncodeChar c).length with hlt | hge
    · obtain ⟨b, bs, heq, -, -, hbs⟩ := utf8EncodeChar_eq_cons c
      rw [heq] at hcut hlt
      cases k with
      | zero => exact validUtf8_nil
      | succ k =>
        have hk : k < bs.length := Nat.lt_of_succ_lt_succ hlt
        have hinside : (b :: bs ++ cs.flatMap String.utf8EncodeChar)[k + 1]? = some bs[k] := by
          rw [List.cons_append, List.getElem?_cons_succ, List.getElem?_append_left hk,
            List.getElem?_eq_getElem hk]
        have hnot := hcut _ hinside
        rw [hbs _ (List.getElem_mem hk)] at hnot
        cases hnot
    · rw [List.take_append, List.take_of_length_le hge]
      refine (validUtf8_encodeChar c).append (ih fun b hb => hcut b ?_)
      rw [List.getElem?_append_right hge]
      exact hb

/-- **Cutting a valid text** and putting an ASCII text in place of the rest leaves it valid
exactly when the first byte cut off, if there is one, is no continuation byte. -/
theorem ValidUtf8.take_append_iff {bs tail : Bytes} (h : ValidUtf8 bs)
    (htail : ∀ b ∈ tail, b < 0x80) (k : ℕ) : ValidUtf8 (bs.take k ++ tail) ↔
      ∀ b, bs[k]? = some b → isContinuation b = false := by
  constructor
  · intro hcut
    refine h.wellFramed.getElem_of_take (fun b hb => ?_) hcut.wellFramed
    rw [isContinuation, Bool.and_eq_false_iff, decide_eq_false_iff_not]
    exact .inl (UInt8.not_le.mpr (htail b hb))
  · exact fun hcut => (h.take hcut).append (validUtf8_of_ascii htail)

/-! ## Replacing ASCII bytes -/

/-- Writing ASCII texts for the ASCII bytes keeps a text valid. -/
theorem ValidUtf8.flatMap {bs : Bytes} (h : ValidUtf8 bs) {e : UInt8 → Bytes}
    (hascii : ∀ b < 0x80, ∀ b' ∈ e b, b' < 0x80) (hother : ∀ b, 0x80 ≤ b → e b = [b]) :
    ValidUtf8 (bs.flatMap e) := by
  obtain ⟨cs, rfl⟩ := validUtf8_iff.mp h
  clear h
  induction cs with
  | nil => exact validUtf8_nil
  | cons c cs ih =>
    rw [List.flatMap_cons, List.flatMap_append]
    refine ValidUtf8.append ?_ ih
    rcases utf8EncodeChar_ascii_or c with ⟨b, hb, heq⟩ | hbs
    · rw [heq, List.flatMap_singleton]
      exact validUtf8_of_ascii (hascii b hb)
    · have hsame : (String.utf8EncodeChar c).flatMap e = String.utf8EncodeChar c := by
        rw [List.flatMap_congr fun b hb => hother b (hbs b hb), List.flatMap_singleton']
      rw [hsame]
      exact validUtf8_encodeChar c
