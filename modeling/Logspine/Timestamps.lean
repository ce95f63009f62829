import Logspine.FixedWidth
import Logspine.Gmtime
import Mathlib.Data.List.Forall2

/-!
# Timestamps

`format_timestamp` writes a time point as a civil time and its milliseconds. Both of its
casts round towards zero: for a time point before 1970 that is not a whole second the
second is rounded up, and the milliseconds are what is missing to it, with a minus sign.
-/

namespace Logspine

open Calendar FixedWidth

/-! ## Timestamps and their texts -/

/-- A civil time of a year with four digits, and the milliseconds since. -/
structure Timestamp where
  time : CivilTime
  milli : ℕ
  year_nonneg : 0 ≤ time.date.year
  year_lt : time.date.year < 10000
  milli_lt : milli < 1000

/-- `YYYY-MM-DDTHH:MM:SS.` -/
def civilLayout : Layout :=
  [(4, '-'.byte), (2, '-'.byte), (2, 'T'.byte), (2, ':'.byte), (2, ':'.byte), (2, '.'.byte)]

/-- `YYYY-MM-DDTHH:MM:SS.mmmZ` -/
def timestampLayout : Layout := civilLayout ++ [(3, 'Z'.byte)]

def civilNumbers (time : CivilTime) : List ℕ :=
  [time.date.year.toNat, time.date.month, time.date.day, time.hour, time.minute, time.second]

namespace Timestamp

/-- The milliseconds since 1970-01-01 began. -/
def millis (timestamp : Timestamp) : ℤ := timestamp.time.seconds * 1000 + timestamp.milli

def numbers (timestamp : Timestamp) : List ℕ := civilNumbers timestamp.time ++ [timestamp.milli]

/-- The text of a timestamp. -/
def text (timestamp : Timestamp) : Bytes := write timestampLayout timestamp.numbers

def ofNumbers : List ℕ → Option Timestamp
  | [year, month, day, hour, minute, second, milli] =>
    if h : ((1 ≤ month ∧ month ≤ 12 ∧ 1 ≤ day ∧ day ≤ daysInMonth year month) ∧
        hour < 24 ∧ minute < 60 ∧ second < 60) ∧ year < 10000 ∧ milli < 1000 then
      some ⟨⟨⟨year, month, day, h.1.1.1, h.1.1.2.1, h.1.1.2.2.1, h.1.1.2.2.2⟩, hour, minute,
        second, h.1.2.1, h.1.2.2.1, h.1.2.2.2⟩, milli, Int.natCast_nonneg _,
        Int.ofNat_lt.mpr h.2.1, h.2.2⟩
    else none
  | _ => none

end Timestamp

/-- The timestamp of a text. -/
def decodeTimestamp (bs : Bytes) : Option Timestamp :=
  (read timestampLayout bs).bind Timestamp.ofNumbers

theorem fits_civilNumbers {time : CivilTime} (hyear : 0 ≤ time.date.year)
    (hyear' : time.date.year < 10000) : Fits civilLayout (civilNumbers time) := by
  have := time.date.month_le
  have := time.hour_lt
  have := time.minute_lt
  have := time.second_lt
  have hday : time.date.day ≤ 31 := Nat.le_trans time.date.day_le (daysInMonth_le _ _)
  refine .cons ?_ (.cons ?_ (.cons ?_ (.cons ?_ (.cons ?_ (.cons ?_ .nil)))))
  · show time.date.year.toNat < 10000
    omega
  · show time.date.month < 100
    omega
  · show time.date.day < 100
    omega
  · show time.hour < 100
    omega
  · show time.minute < 100
    omega
  · show time.second < 100
    omega

namespace Timestamp

theorem fits_numbers (timestamp : Timestamp) : Fits timestampLayout timestamp.numbers :=
  List.rel_append (fits_civilNumbers timestamp.year_nonneg timestamp.year_lt)
    (.cons timestamp.milli_lt .nil)

theorem ofNumbers_numbers (timestamp : Timestamp) :
    ofNumbers timestamp.numbers = some timestamp := by
  obtain ⟨⟨⟨year, month, day, hmonth, hmonth', hday, hday'⟩, hour, minute, second, hhour,
    hminute, hsecond⟩, milli, hyear, hyear', hmilli⟩ := timestamp
  obtain ⟨year, rfl⟩ := Int.eq_ofNat_of_zero_le hyear
  exact dif_pos ⟨⟨⟨hmonth, hmonth', hday, hday'⟩, hhour, hminute, hsecond⟩,
    Int.ofNat_lt.mp hyear', hmilli⟩

/-- A text has 24 characters. -/
theorem length_text (timestamp : Timestamp) : timestamp.text.length = 24 :=
  length_write timestamp.fits_numbers

/-- A timestamp is decoded from its text. -/
theorem decodeTimestamp_text (timestamp : Timestamp) :
    decodeTimestamp timestamp.text = some timestamp := by
  rw [decodeTimestamp, text, read_write timestamp.fits_numbers, Option.bind_some,
    ofNumbers_numbers]

/-- The first number that differs decides. -/
theorem before_of_numbers_lt {timestamp timestamp' : Timestamp}
    (h : timestamp.numbers < timestamp'.numbers) :
    timestamp.time.Before timestamp'.time ∨
      timestamp.time = timestamp'.time ∧ timestamp.milli < timestamp'.milli := by
  obtain ⟨⟨date, hour, minute, second, _, _, _⟩, milli, hyear0, _, _⟩ := timestamp
  obtain ⟨⟨date', hour', minute', second', _, _, _⟩, milli', hyear0', _, _⟩ := timestamp'
  simp only [numbers, civilNumbers, List.cons_append, List.nil_append, List.cons_lt_cons_iff,
    List.not_lt_nil, and_false, or_false] at h
  have hyear : (date.year.toNat : ℤ) = date.year := Int.toNat_of_nonneg hyear0
  have hyear' : (date'.year.toNat : ℤ) = date'.year := Int.toNat_of_nonneg hyear0'
  have hyearEq : date.year.toNat = date'.year.toNat → date.year = date'.year := by omega
  rcases h with h | ⟨hyear, h | ⟨hmonth, h | ⟨hday, h⟩⟩⟩
  · have hyearLt : date.year < date'.year := by omega
    exact .inl (.inl (.inl hyearLt))
  · exact .inl (.inl (.inr ⟨hyearEq hyear, .inl h⟩))
  · exact .inl (.inl (.inr ⟨hyearEq hyear, .inr ⟨hmonth, h⟩⟩))
  · obtain rfl := Date.ext (hyearEq hyear) hmonth hday
    rcases h with h | ⟨rfl, h | ⟨rfl, h | ⟨rfl, h⟩⟩⟩
    · exact .inl (.inr ⟨rfl, .inl h⟩)
    · exact .inl (.inr ⟨rfl, .inr ⟨rfl, .inl h⟩⟩)
    · exact .inl (.inr ⟨rfl, .inr ⟨rfl, .inr ⟨rfl, h⟩⟩⟩)
    · exact .inr ⟨rfl, h⟩

/-- Texts are ordered as the milliseconds. -/
theorem millis_lt_of_text_lt {timestamp timestamp' : Timestamp}
    (h : timestamp.text < timestamp'.text) : timestamp.millis < timestamp'.millis := by
  have hnumbers := (write_lt_iff timestamp.fits_numbers timestamp'.fits_numbers).mp h
  have := timestamp.milli_lt
  unfold millis
  rcases before_of_numbers_lt hnumbers with hbefore | ⟨htime, hmilli⟩
  · have hseconds := CivilTime.seconds_lt hbefore
    omega
  · rw [htime]
    omega

end Timestamp

/-! ## What `format_timestamp` writes -/

/-- Digits before, and no sign. -/
theorem zeroPadded_eq_digits {width n : ℕ} (hwidth : 0 < width) (h : n < 10 ^ width) :
    zeroPadded width n = digits width n :=
  zeros_append_natural hwidth h

/-- The civil time is written in its layout. -/
theorem formatTimestamp_eq_append {timestamp : ℤ} {time : CivilTime}
    (htime : gmtime (timestamp.tdiv 1000000000) = toTm time) (hyear : 0 ≤ time.date.year)
    (hyear' : time.date.year < 10000) :
    formatTimestamp timestamp = write civilLayout (civilNumbers time) ++
      (zeroPadded 3 ((timestamp - timestamp.tdiv 1000000000 * 1000000000).tdiv 1000000) ++
        ascii "Z") := by
  have hfits := fits_civilNumbers hyear hyear'
  obtain ⟨⟨year, month, day, _, _, _, _⟩, hour, minute, second, _, _, _⟩ := time
  obtain ⟨year, rfl⟩ := Int.eq_ofNat_of_zero_le hyear
  simp only [Fits, civilLayout, civilNumbers, List.forall₂_cons] at hfits
  obtain ⟨hyear, hmonth, hday, hhour, hminute, hsecond, -⟩ := hfits
  have hyearText : zeroPadded 4 ((year : ℤ) - 1900 + 1900) = digits 4 year := by
    rw [Int.sub_add_cancel]
    exact zeroPadded_eq_digits (by decide) hyear
  have hmonthText : zeroPadded 2 ((month : ℤ) - 1 + 1) = digits 2 month := by
    rw [Int.sub_add_cancel]
    exact zeroPadded_eq_digits (by decide) hmonth
  have hdash : ascii "-" = ['-'.byte] := rfl
  have ht : ascii "T" = ['T'.byte] := rfl
  have hcolon : ascii ":" = [':'.byte] := rfl
  have hdot : ascii "." = ['.'.byte] := rfl
  simp only [formatTimestamp, htime, toTm, hyearText, hmonthText,
    zeroPadded_eq_digits (by decide : 0 < 2) hday, zeroPadded_eq_digits (by decide : 0 < 2) hhour,
    zeroPadded_eq_digits (by decide : 0 < 2) hminute,
    zeroPadded_eq_digits (by decide : 0 < 2) hsecond, civilLayout, civilNumbers, write, hdash, ht,
    hcolon, hdot, List.append_assoc, List.cons_append, List.nil_append, Int.toNat_natCast]

/-- Seconds and milliseconds that fit are the text of a timestamp. -/
theorem formatTimestamp_eq_text {timestamp : ℤ} {time : CivilTime} {milli : ℕ}
    (htime : gmtime (timestamp.tdiv 1000000000) = toTm time) (hyear : 0 ≤ time.date.year)
    (hyear' : time.date.year < 10000)
    (hmilli : (timestamp - timestamp.tdiv 1000000000 * 1000000000).tdiv 1000000 = milli)
    (hlt : milli < 1000) :
    formatTimestamp timestamp = (⟨time, milli, hyear, hyear', hlt⟩ : Timestamp).text := by
  have htext : write timestampLayout (civilNumbers time ++ [milli]) =
      write civilLayout (civilNumbers time) ++ (digits 3 milli ++ ascii "Z") := by
    simp only [timestampLayout, civilLayout, civilNumbers, write, List.cons_append,
      List.nil_append, List.append_assoc]
    rfl
  rw [formatTimestamp_eq_append htime hyear hyear', hmilli,
    zeroPadded_eq_digits (by decide) hlt]
  exact htext.symm

/-- Negative milliseconds are not. -/
theorem decodeTimestamp_eq_none {timestamp : ℤ} {time : CivilTime}
    (htime : gmtime (timestamp.tdiv 1000000000) = toTm time) (hyear : 0 ≤ time.date.year)
    (hyear' : time.date.year < 10000)
    (hmilli : (timestamp - timestamp.tdiv 1000000000 * 1000000000).tdiv 1000000 < 0) :
    decodeTimestamp (formatTimestamp timestamp) = none := by
  obtain ⟨n, hn⟩ := Int.eq_negSucc_of_lt_zero hmilli
  rw [decodeTimestamp, formatTimestamp_eq_append htime hyear hyear', hn, timestampLayout,
    read_write_append (fits_civilNumbers hyear hyear'), zeroPadded, List.cons_append,
    read_cons_eq_none (by decide) (by decide)]
  rfl

/-- From 1970 on, and at whole seconds, the casts round down. -/
theorem casts_of_nonneg_or_dvd {timestamp : ℤ} (h : 0 ≤ timestamp ∨ 1000000000 ∣ timestamp) :
    timestamp.tdiv 1000000000 = timestamp / 1000000000 ∧
      (timestamp - timestamp.tdiv 1000000000 * 1000000000).tdiv 1000000 =
        timestamp % 1000000000 / 1000000 := by
  have hseconds : timestamp.tdiv 1000000000 = timestamp / 1000000000 :=
    h.elim Int.tdiv_eq_ediv_of_nonneg Int.tdiv_eq_ediv_of_dvd
  have hrest : timestamp - timestamp / 1000000000 * 1000000000 = timestamp % 1000000000 := by
    omega
  rw [hseconds, hrest]
  exact ⟨rfl, Int.tdiv_eq_ediv_of_nonneg (Int.emod_nonneg _ (by decide))⟩

/-- Otherwise they round up. -/
theorem casts_of_neg {timestamp : ℤ} (hneg : timestamp < 0) (hdvd : ¬ 1000000000 ∣ timestamp) :
    timestamp.tdiv 1000000000 = timestamp / 1000000000 + 1 ∧
      (timestamp - timestamp.tdiv 1000000000 * 1000000000).tdiv 1000000 =
        -((1000000000 - timestamp % 1000000000) / 1000000) := by
  have hseconds : timestamp.tdiv 1000000000 = timestamp / 1000000000 + 1 := by
    rw [Int.tdiv_eq_ediv, if_neg fun h => h.elim (Int.not_le.mpr hneg) hdvd]
    rfl
  have hrest : timestamp - (timestamp / 1000000000 + 1) * 1000000000 =
      -(1000000000 - timestamp % 1000000000) := by omega
  have hnonneg : 0 ≤ 1000000000 - timestamp % 1000000000 := by omega
  rw [hseconds, hrest, Int.neg_tdiv, Int.tdiv_eq_ediv_of_nonneg hnonneg]
  exact ⟨rfl, rfl⟩

/-- The time points of a `system_clock` are in years of four digits. -/
theorem exists_civilTime_of_int64 (timestamp : BitVec 64) :
    ∃ time : CivilTime, gmtime (timestamp.toInt.tdiv 1000000000) = toTm time ∧
      time.seconds = timestamp.toInt.tdiv 1000000000 ∧ 0 ≤ time.date.year ∧
      time.date.year < 10000 := by
  obtain ⟨time, htime, hseconds⟩ := exists_civilTime (timestamp.toInt.tdiv 1000000000)
  have hle : -2 ^ 63 ≤ timestamp.toInt := BitVec.le_toInt timestamp
  have hlt : timestamp.toInt < 2 ^ 63 := BitVec.toInt_lt
  have hbound : timestamp.toInt.tdiv 1000000000 = timestamp.toInt / 1000000000 ∨
      timestamp.toInt.tdiv 1000000000 = timestamp.toInt / 1000000000 + 1 := by
    by_cases h : 0 ≤ timestamp.toInt ∨ 1000000000 ∣ timestamp.toInt
    · exact .inl (casts_of_nonneg_or_dvd h).1
    · rw [not_or, Int.not_le] at h
      exact .inr (casts_of_neg h.1 h.2).1
  have hyear := time.year_of_seconds (by omega) (by omega)
  exact ⟨time, htime, hseconds, hyear⟩

/-- The text is one of 24 characters, of a timestamp that is the time point rounded down to
a millisecond. -/
def Exact (timestamp : ℤ) : Prop :=
  (formatTimestamp timestamp).length = 24 ∧
    (decodeTimestamp (formatTimestamp timestamp)).map Timestamp.millis =
      some (timestamp / 1000000)

/-- Rounded down, the text is that of a timestamp. -/
theorem exists_timestamp_of_floor {timestamp : BitVec 64}
    (h : 0 ≤ timestamp.toInt ∨ 1000000000 ∣ timestamp.toInt) :
    ∃ ts : Timestamp, formatTimestamp timestamp.toInt = ts.text ∧
      ts.millis = timestamp.toInt / 1000000 := by
  obtain ⟨time, htime, hseconds, hyear, hyear'⟩ := exists_civilTime_of_int64 timestamp
  obtain ⟨hfloor, hmillis⟩ := casts_of_nonneg_or_dvd h
  obtain ⟨milli, hmilli⟩ := Int.eq_ofNat_of_zero_le
    (show 0 ≤ timestamp.toInt % 1000000000 / 1000000 by omega)
  have hlt : milli < 1000 := by omega
  refine ⟨⟨time, milli, hyear, hyear', hlt⟩,
    formatTimestamp_eq_text htime hyear hyear' (hmillis.trans hmilli) hlt, ?_⟩
  show time.seconds * 1000 + milli = _
  rw [hseconds, hfloor, ← hmilli]
  omega

theorem exact_of_floor {timestamp : BitVec 64}
    (h : 0 ≤ timestamp.toInt ∨ 1000000000 ∣ timestamp.toInt) : Exact timestamp.toInt := by
  obtain ⟨ts, htext, hmillis⟩ := exists_timestamp_of_floor h
  rw [Exact, htext, ts.length_text, ts.decodeTimestamp_text, Option.map_some, hmillis]
  exact ⟨rfl, rfl⟩

/-- Rounded up, the text is that of a later millisecond, or of none. -/
theorem floor_of_exact {timestamp : BitVec 64} (h : Exact timestamp.toInt) :
    0 ≤ timestamp.toInt ∨ 1000000000 ∣ timestamp.toInt := by
  obtain ⟨time, htime, hseconds, hyear, hyear'⟩ := exists_civilTime_of_int64 timestamp
  rcases lt_or_ge timestamp.toInt 0 with hneg | hnonneg
  · by_contra hnot
    have hdvd : ¬ 1000000000 ∣ timestamp.toInt := fun hdvd => hnot (.inr hdvd)
    obtain ⟨hceil, hmillis⟩ := casts_of_neg hneg hdvd
    rcases lt_or_ge ((timestamp.toInt - timestamp.toInt.tdiv 1000000000 * 1000000000).tdiv
      1000000) 0 with hsign | hzero
    · have hdecoded := h.2
      rw [decodeTimestamp_eq_none htime hyear hyear' hsign] at hdecoded
      cases hdecoded
    · have hmilli : (timestamp.toInt - timestamp.toInt.tdiv 1000000000 * 1000000000).tdiv
          1000000 = (0 : ℕ) := by omega
      have hdecoded := h.2
      rw [formatTimestamp_eq_text htime hyear hyear' hmilli (by decide),
        Timestamp.decodeTimestamp_text, Option.map_some] at hdecoded
      have hmillisEq : time.seconds * 1000 + (0 : ℕ) = timestamp.toInt / 1000000 :=
        Option.some.inj hdecoded
      omega
  · exact .inl hnonneg

/-- Earlier time points that are rounded down have no greater texts. -/
theorem formatTimestamp_not_lt {timestamp timestamp' : BitVec 64}
    (h : 0 ≤ timestamp.toInt ∨ 1000000000 ∣ timestamp.toInt)
    (h' : 0 ≤ timestamp'.toInt ∨ 1000000000 ∣ timestamp'.toInt)
    (hlt : timestamp.toInt < timestamp'.toInt) :
    ¬ formatTimestamp timestamp'.toInt < formatTimestamp timestamp.toInt := by
  obtain ⟨ts, htext, hmillis⟩ := exists_timestamp_of_floor h
  obtain ⟨ts', htext', hmillis'⟩ := exists_timestamp_of_floor h'
  rw [htext, htext']
  intro hgreater
  have := Timestamp.millis_lt_of_text_lt hgreater
  omega

/-- The texts of two time points are exact, and ordered as the time points are, just when
each is not before 1970 or is a whole second. -/
theorem timestamps_exact_iff (timestamp timestamp' : BitVec 64) :
    (Exact timestamp.toInt ∧ Exact timestamp'.toInt ∧
      (timestamp.toInt < timestamp'.toInt →
        ¬ formatTimestamp timestamp'.toInt < formatTimestamp timestamp.toInt)) ↔
      (0 ≤ timestamp.toInt ∨ 1000000000 ∣ timestamp.toInt) ∧
        (0 ≤ timestamp'.toInt ∨ 1000000000 ∣ timestamp'.toInt) := by
  constructor
  · rintro ⟨h, h', -⟩
    exact ⟨floor_of_exact h, floor_of_exact h'⟩
  · rintro ⟨h, h'⟩
    exact ⟨exact_of_floor h, exact_of_floor h', formatTimestamp_not_lt h h'⟩

/-- Half a second before 1970, and a tenth of a second later. -/
theorem not_exact_halfSecondBefore :
    formatTimestamp (-500000000) = ascii "1970-01-01T00:00:00.-500Z" ∧ ¬ Exact (-500000000) ∧
      formatTimestamp (-400000000) < formatTimestamp (-500000000) := by
  refine ⟨by decide, fun h => ?_, by decide⟩
  exact absurd h.1 (by decide)

end Logspine
