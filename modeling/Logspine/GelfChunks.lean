import Mathlib.Data.List.Nodup
import Logspine.GelfReassembly

/-!
# Chunk sizes and message ids

A chunk has a header of 12 bytes and the id of its message. `write` takes the header from
`max_chunk_size` and rounds a quotient up, in the wrapping arithmetic of `std::size_t`: that
is safe from 13 bytes on, and below when the payload is not cut at all (`chunkingSafe_iff`).
An id is a reading of the clock with the counter of the process in its upper half. Two
differences can cancel there (`messageIds_nodup_iff`), though not within 2^32 ticks
(`messageIds_nodup_of_near`).
-/

namespace Logspine

namespace GelfUdpSink

/-! ## Chunk sizes -/

/-- The arithmetic that cuts a payload divides by another number than zero, and neither
`max_chunk_size - 12` nor the dividend `payload.size() + max_payload_per_chunk - 1` wraps. -/
def ArithmeticSafe (maxChunkSize : BitVec 64) (payload : StdString) : Prop :=
  let maxPayloadPerChunk := maxChunkSize - 12
  maxPayloadPerChunk ≠ 0 ∧ maxChunkSize.usubOverflow 12 = false ∧
    payload.size.uaddOverflow maxPayloadPerChunk = false ∧
    (payload.size + maxPayloadPerChunk).usubOverflow 1 = false

/-- Cutting a payload is safe, and gives datagrams that are not longer than
`max_chunk_size`, at least one. -/
structure ChunkingSafe (messageId maxChunkSize : BitVec 64) (payload : StdString) : Prop where
  arithmetic : maxChunkSize < payload.size → ArithmeticSafe maxChunkSize payload
  datagrams : ∃ chunks, makeChunks messageId maxChunkSize payload = some chunks ∧
    chunks ≠ [] ∧ ∀ chunk ∈ chunks, chunk.length ≤ maxChunkSize.toNat

theorem arithmeticSafe_of_le {maxChunkSize : BitVec 64} (hmin : 13 ≤ maxChunkSize.toNat)
    {payload : StdString} (hlt : maxChunkSize < payload.size) :
    ArithmeticSafe maxChunkSize payload := by
  have hsize := payload.toNat_size
  have hbound := payload.length_lt
  have hm := toNat_payloadPerChunk hmin
  have hlt' : maxChunkSize.toNat < payload.bytes.length := by
    rw [← hsize]
    exact hlt
  have hadd : (payload.size + (maxChunkSize - 12)).toNat =
      payload.bytes.length + (maxChunkSize.toNat - 12) := by
    rw [BitVec.toNat_add, hsize, hm]
    omega
  have hone : (1 : BitVec 64).toNat = 1 := rfl
  have htwelve : (12 : BitVec 64).toNat = 12 := rfl
  refine ⟨fun hzero => ?_, ?_, ?_, ?_⟩
  · rw [hzero] at hm
    have hnat : (0 : BitVec 64).toNat = 0 := rfl
    omega
  · rw [BitVec.usubOverflow, htwelve, decide_eq_false_iff_not]
    omega
  · rw [BitVec.uaddOverflow, hsize, hm, decide_eq_false_iff_not]
    omega
  · rw [BitVec.usubOverflow, hadd, hone, decide_eq_false_iff_not]
    omega

/-- Without room for the header and a byte, the arithmetic goes wrong. -/
theorem not_arithmeticSafe {maxChunkSize : BitVec 64} (hmax : maxChunkSize.toNat < 13)
    (payload : StdString) : ¬ ArithmeticSafe maxChunkSize payload := by
  rintro ⟨hzero, hsub, -⟩
  have htwelve : (12 : BitVec 64).toNat = 12 := rfl
  rw [BitVec.usubOverflow, htwelve, decide_eq_false_iff_not] at hsub
  have heq : maxChunkSize.toNat = 12 := by omega
  refine hzero ?_
  rw [BitVec.eq_of_toNat_eq (x := maxChunkSize) (y := 12) heq, BitVec.sub_self]
  rfl

/-- The datagrams of a payload that is cut, from 13 bytes on. -/
theorem length_le_of_makeChunks {messageId maxChunkSize : BitVec 64} {payload : StdString}
    (hmin : 13 ≤ maxChunkSize.toNat) (hlt : maxChunkSize.toNat < payload.bytes.length)
    {chunks : List Bytes} (h : makeChunks messageId maxChunkSize payload = some chunks) :
    ∀ chunk ∈ chunks, chunk.length ≤ maxChunkSize.toNat := by
  rw [makeChunks_of_lt messageId hmin hlt, Option.some_inj] at h
  intro chunk hchunk
  rw [← h] at hchunk
  obtain ⟨i, -, rfl⟩ := List.mem_map.mp hchunk
  have hslice : (slice payload.bytes (maxChunkSize.toNat - 12) i).length ≤
      maxChunkSize.toNat - 12 := List.length_take_le _ _
  rw [Gelf.Chunk.length_datagram (length_idBytes messageId)]
  exact Nat.le_trans (Nat.add_le_add_left hslice 12) (by omega)

/-- For every options value and payload: the chunking is safe exactly when `max_chunk_size`
has room for the header and a byte, or the payload is not cut. -/
theorem chunkingSafe_iff (messageId : BitVec 64) (options : GelfUdpSinkOptions)
    (payload : StdString) :
    ChunkingSafe messageId options.maxChunkSize payload ↔
      13 ≤ options.maxChunkSize.toNat ∨ payload.bytes.length ≤ options.maxChunkSize.toNat := by
  have hcut : options.maxChunkSize < payload.size ↔
      options.maxChunkSize.toNat < payload.bytes.length := by
    rw [BitVec.lt_def, payload.toNat_size]
  constructor
  · intro h
    by_contra hnot
    obtain ⟨hmax, hlt⟩ := not_or.mp hnot
    exact not_arithmeticSafe (Nat.lt_of_not_le hmax) payload
      (h.arithmetic (hcut.mpr (Nat.lt_of_not_le hlt)))
  · intro h
    rcases Nat.lt_or_ge options.maxChunkSize.toNat payload.bytes.length with hlt | hle
    · have hmin : 13 ≤ options.maxChunkSize.toNat := h.resolve_right (Nat.not_le_of_lt hlt)
      obtain ⟨chunks, hchunks, hne⟩ := exists_makeChunks messageId hmin payload
      exact ⟨arithmeticSafe_of_le hmin, chunks, hchunks, hne,
        length_le_of_makeChunks hmin hlt hchunks⟩
    · refine ⟨fun hcut' => absurd (hcut.mp hcut') (Nat.not_lt_of_le hle), ?_⟩
      refine ⟨[payload.bytes], makeChunks_of_le messageId hle, List.cons_ne_nil _ _, ?_⟩
      exact List.forall_mem_singleton.mpr hle

/-- Options with chunks of no more than a header. -/
def headerOptions : GelfUdpSinkOptions := ⟨ascii "localhost", 12201, [], true, 2, false, 12⟩

/-- The constructor accepts them, and the code that cuts the payload divides by zero. -/
theorem not_chunkingSafe_headerOptions :
    (∃ s, construct headerOptions (.ok [127, 0, 0, 1]) = some (s, none)) ∧
      makeChunks 0 headerOptions.maxChunkSize smallPayload = none ∧
      ¬ ChunkingSafe 0 headerOptions.maxChunkSize smallPayload := by
  refine ⟨⟨_, rfl⟩, by decide, fun h => ?_⟩
  obtain ⟨chunks, hchunks, -⟩ := h.datagrams
  have hnone : makeChunks 0 headerOptions.maxChunkSize smallPayload = none := by decide
  rw [hnone] at hchunks
  cases hchunks

/-! ## Message ids -/

/-- `generate_gelf_message_id`, with the reading of the clock and the counter: the id, and
the counter it leaves. -/
def generateGelfMessageId (now counter : BitVec 64) : BitVec 64 × BitVec 64 :=
  (now ^^^ counter <<< 32, counter + 1)

/-- The ids of successive calls, with what each reads from the clock. -/
def messageIds (counter : BitVec 64) : List (BitVec 64) → List (BitVec 64)
  | [] => []
  | now :: readings =>
    let (messageId, counter) := generateGelfMessageId now counter
    messageId :: messageIds counter readings

/-- The upper half of a reading, the one that is mixed with the counter. -/
def upper (now : BitVec 64) : BitVec 32 := now.extractLsb' 32 32

/-- An id by its halves. -/
theorem xor_shiftLeft_eq (now counter : BitVec 64) :
    now ^^^ counter <<< 32 =
      ((upper now ^^^ counter.setWidth 32) ++ now.setWidth 32 : BitVec 64) := by
  refine BitVec.eq_of_getLsbD_eq fun i hi => ?_
  rw [BitVec.getLsbD_append, upper, BitVec.getLsbD_xor, BitVec.getLsbD_shiftLeft]
  by_cases hlow : i < 32
  · simp [hlow]
  · have hi' : i - 32 < 32 := by omega
    have hsum : 32 + (i - 32) = i := by omega
    rw [BitVec.getLsbD_xor, BitVec.getLsbD_extractLsb', BitVec.getLsbD_setWidth, hsum]
    simp only [hlow, hi', hi, decide_true, decide_false, Bool.not_false, Bool.true_and, if_false,
      BitVec.getLsbD_setWidth]

theorem append_inj {x x' y y' : BitVec 32} (h : (x ++ y : BitVec 64) = x' ++ y') :
    x = x' ∧ y = y' := by
  have hleft := congrArg (BitVec.extractLsb' 32 32) h
  have hright := congrArg (BitVec.setWidth 32) h
  rw [BitVec.extractLsb'_append_eq_left, BitVec.extractLsb'_append_eq_left] at hleft
  rw [BitVec.setWidth_append_eq_right, BitVec.setWidth_append_eq_right] at hright
  exact ⟨hleft, hright⟩

theorem xor_eq_xor_iff {x y z u : BitVec 32} : x ^^^ y = z ^^^ u ↔ x ^^^ z = y ^^^ u := by
  have hxor : (x ^^^ y) ^^^ (y ^^^ z) = x ^^^ z := by
    rw [BitVec.xor_assoc, ← BitVec.xor_assoc y, BitVec.xor_self, BitVec.zero_xor]
  have hxor' : (z ^^^ u) ^^^ (y ^^^ z) = y ^^^ u := by
    rw [BitVec.xor_comm z, BitVec.xor_assoc, BitVec.xor_comm y, ← BitVec.xor_assoc z,
      BitVec.xor_self, BitVec.zero_xor, BitVec.xor_comm]
  rw [← BitVec.xor_left_inj (y ^^^ z), hxor, hxor']

/-- Ids are equal when the lower halves of the readings are, and the upper halves differ
where the counters do. -/
theorem messageId_eq_iff {now now' counter counter' : BitVec 64} :
    now ^^^ counter <<< 32 = now' ^^^ counter' <<< 32 ↔
      now.setWidth 32 = now'.setWidth 32 ∧
        upper now ^^^ upper now' = counter.setWidth 32 ^^^ counter'.setWidth 32 := by
  rw [xor_shiftLeft_eq, xor_shiftLeft_eq, ← xor_eq_xor_iff]
  constructor
  · intro h
    obtain ⟨hupper, hlower⟩ := append_inj h
    exact ⟨hlower, hupper⟩
  · rintro ⟨hlower, hupper⟩
    rw [hlower, hupper]

/-- What the call with the index `i` returns. -/
theorem messageIds_getElem? (counter : BitVec 64) (readings : List (BitVec 64)) (i : ℕ) :
    (messageIds counter readings)[i]? =
      readings[i]?.map fun now => now ^^^ (counter + .ofNat 64 i) <<< 32 := by
  induction readings generalizing counter i with
  | nil => rfl
  | cons now readings ih =>
    rw [messageIds, generateGelfMessageId]
    cases i with
    | zero =>
      rw [List.getElem?_cons_zero, List.getElem?_cons_zero, Option.map_some, BitVec.add_zero]
    | succ i =>
      have hadd : counter + 1 + BitVec.ofNat 64 i = counter + BitVec.ofNat 64 (i + 1) := by
        rw [BitVec.add_assoc, BitVec.ofNat_add, BitVec.add_comm (BitVec.ofNat 64 i)]
        rfl
      rw [List.getElem?_cons_succ, List.getElem?_cons_succ, ih, hadd]

theorem getLsbD_255 {i : ℕ} (h : i < 8) : (0xff : BitVec 64).getLsbD i = true := by
  have hall : ∀ i < 8, (0xff : BitVec 64).getLsbD i = true := by decide
  exact hall i h

/-- The bytes of an id in a chunk tell it. -/
theorem idBytes_inj {messageId messageId' : BitVec 64}
    (h : idBytes messageId = idBytes messageId') : messageId = messageId' := by
  refine BitVec.eq_of_getLsbD_eq fun i hi => ?_
  -- the byte with the index `i / 8` has the bit
  have hbyte := List.map_inj_left.mp h (i / 8) (List.mem_range.mpr (by omega))
  have hlt : ∀ messageId : BitVec 64, (messageId >>> (i / 8 * 8) &&& 0xff).toNat < 256 :=
    fun messageId => by
      rw [BitVec.toNat_and]
      exact Nat.and_lt_two_pow (n := 8) _ (by decide)
  have hbits := congrArg UInt8.toNat hbyte
  rw [UInt8.toNat_ofNat_of_lt' (hlt _), UInt8.toNat_ofNat_of_lt' (hlt _)] at hbits
  have hbit := congrArg (BitVec.getLsbD · (i % 8)) (BitVec.eq_of_toNat_eq hbits)
  have hsum : i / 8 * 8 + i % 8 = i := Nat.div_add_mod' i 8
  simp only [BitVec.getLsbD_and, BitVec.getLsbD_ushiftRight, hsum,
    getLsbD_255 (Nat.mod_lt i (by decide)), Bool.and_true] at hbit
  exact hbit

/-- The calls with the indices `i` and `j` return one id. -/
theorem messageIds_getElem?_eq_iff {readings : List (BitVec 64)} {i j : ℕ} {now now' : BitVec 64}
    (hi : readings[i]? = some now) (hj : readings[j]? = some now') :
    (messageIds 0 readings)[i]? = (messageIds 0 readings)[j]? ↔
      now.setWidth 32 = now'.setWidth 32 ∧
        upper now ^^^ upper now' = BitVec.ofNat 32 i ^^^ BitVec.ofNat 32 j := by
  have hcounter : ∀ n : ℕ, BitVec.setWidth 32 (0 + BitVec.ofNat 64 n) = BitVec.ofNat 32 n :=
    fun n => by
      rw [BitVec.ofNat_eq_ofNat, BitVec.zero_add, BitVec.setWidth_ofNat_of_le (by decide)]
  rw [messageIds_getElem?, messageIds_getElem?, hi, hj, Option.map_some, Option.map_some,
    Option.some_inj, messageId_eq_iff, hcounter, hcounter]

theorem length_messageIds (counter : BitVec 64) (readings : List (BitVec 64)) :
    (messageIds counter readings).length = readings.length := by
  induction readings generalizing counter with
  | nil => rfl
  | cons now readings ih => exact congrArg (· + 1) (ih (counter + 1))

/-- No two calls return one id, and no two ids have the same bytes in their chunks, exactly
when there are no two readings with the same lower half whose upper halves differ where the
indices of the calls do. -/
theorem messageIds_nodup_iff (readings : List (BitVec 64)) :
    ((messageIds 0 readings).Nodup ∧ ((messageIds 0 readings).map idBytes).Nodup) ↔
      ∀ i j now now', i < j → readings[i]? = some now → readings[j]? = some now' →
        now.setWidth 32 = now'.setWidth 32 →
          upper now ^^^ upper now' ≠ BitVec.ofNat 32 i ^^^ BitVec.ofNat 32 j := by
  have hmap : ((messageIds 0 readings).map idBytes).Nodup ↔ (messageIds 0 readings).Nodup :=
    List.nodup_map_iff fun messageId messageId' => idBytes_inj
  rw [hmap, and_self, List.nodup_iff_getElem?_ne_getElem?, length_messageIds]
  constructor
  · intro h i j now now' hij hi hj hlower hupper
    have hlt : j < readings.length := (List.getElem?_eq_some_iff.mp hj).1
    exact h i j hij hlt ((messageIds_getElem?_eq_iff hi hj).mpr ⟨hlower, hupper⟩)
  · intro h i j hij hlt heq
    have hi := List.getElem?_eq_getElem (Nat.lt_trans hij hlt)
    have hj := List.getElem?_eq_getElem hlt
    obtain ⟨hlower, hupper⟩ := (messageIds_getElem?_eq_iff hi hj).mp heq
    exact h i j _ _ hij hi hj hlower hupper

/-- The clock is read at 0 and 2^32 ticks later: the counter undoes the difference. -/
theorem not_nodup_messageIds :
    ([0, 0x100000000] : List (BitVec 64)).Pairwise (· ≤ ·) ∧
      ¬ (messageIds 0 [0, 0x100000000]).Nodup := by
  decide

/-- Within 2^32 ticks of the clock, 2^32 calls return different ids. -/
theorem messageIds_nodup_of_near {readings : List (BitVec 64)} {start : ℕ}
    (hnear : ∀ now ∈ readings, start ≤ now.toNat ∧ now.toNat < start + 2 ^ 32)
    (hlength : readings.length ≤ 2 ^ 32) : (messageIds 0 readings).Nodup := by
  rw [List.nodup_iff_getElem?_ne_getElem?, length_messageIds]
  intro i j hij hjlt hsame
  have hi := List.getElem?_eq_getElem (Nat.lt_trans hij hjlt)
  have hj := List.getElem?_eq_getElem hjlt
  obtain ⟨hlower, hupper⟩ := (messageIds_getElem?_eq_iff hi hj).mp hsame
  obtain ⟨hstart, hlt⟩ := hnear _ (List.mem_of_getElem? hi)
  obtain ⟨hstart', hlt'⟩ := hnear _ (List.mem_of_getElem? hj)
  -- one lower half within 2^32 ticks is one reading
  have hmod := congrArg BitVec.toNat hlower
  rw [BitVec.toNat_setWidth, BitVec.toNat_setWidth] at hmod
  have heq := BitVec.eq_of_toNat_eq (x := readings[i]) (y := readings[j]) (by omega)
  rw [heq, BitVec.xor_self] at hupper
  have hindex := congrArg BitVec.toNat (BitVec.xor_eq_zero_iff.mp hupper.symm)
  rw [BitVec.toNat_ofNat, BitVec.toNat_ofNat, Nat.mod_eq_of_lt (by omega),
    Nat.mod_eq_of_lt (by omega)] at hindex
  omega

end GelfUdpSink

end Logspine
