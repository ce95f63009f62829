import Logspine.Bytes

/-!
# GELF chunks

What a receiver of GELF datagrams makes of the chunks of a message: it joins their slices
by sequence number, whatever the order in which they come and however often
(`reassemble_eq`).
-/

namespace Gelf

/-- A chunk of a message. -/
structure Chunk where
  /-- the message id, 8 bytes -/
  id : Bytes
  sequence : UInt8
  count : UInt8
  slice : Bytes

/-- The first bytes of a chunk. -/
def magic : Bytes := [0x1e, 0x0f]

/-- The datagram of a chunk. -/
def Chunk.datagram (chunk : Chunk) : Bytes :=
  magic ++ chunk.id ++ [chunk.sequence, chunk.count] ++ chunk.slice

/-- Read a datagram as a chunk. -/
def parseChunk (datagram : Bytes) : Option Chunk :=
  match datagram.drop 10 with
  | sequence :: count :: slice =>
    if datagram.take 2 = magic then some ⟨(datagram.drop 2).take 8, sequence, count, slice⟩
    else none
  | _ => none

/-- Join the slices with the sequence numbers below `n`, `none` if one is missing. -/
def joinSlices (chunks : List Chunk) : ℕ → Option Bytes
  | 0 => some []
  | n + 1 => do
    let front ← joinSlices chunks n
    let chunk ← chunks.find? fun chunk => chunk.sequence = .ofNat n
    return front ++ chunk.slice

/-- The message of a list of datagrams: that of the first chunk among them. -/
def reassemble (datagrams : List Bytes) : Option Bytes := do
  let chunks := datagrams.filterMap parseChunk
  let first ← chunks.head?
  joinSlices (chunks.filter fun chunk => chunk.id = first.id) first.count.toNat

/-- What a receiver makes of the datagrams of one message: a chunked message is reassembled,
another one is its datagram. -/
def receive (datagrams : List Bytes) : Option Bytes :=
  match datagrams with
  | [] => none
  | datagram :: _ => if datagram.take 2 = magic then reassemble datagrams else some datagram

theorem Chunk.length_datagram {chunk : Chunk} (h : chunk.id.length = 8) :
    chunk.datagram.length = 12 + chunk.slice.length := by
  rw [datagram, List.length_append, List.length_append, List.length_append, h]
  rfl

/-- The sequence number is the byte with the index 10. -/
theorem Chunk.datagram_getElem {chunk : Chunk} (h : chunk.id.length = 8) :
    chunk.datagram[10]? = some chunk.sequence := by
  have hlength : (magic ++ chunk.id).length = 10 := by
    rw [List.length_append, h]
    rfl
  rw [datagram, List.append_assoc, List.getElem?_append_right (Nat.le_of_eq hlength), hlength]
  rfl

theorem Chunk.take_datagram (chunk : Chunk) : chunk.datagram.take 2 = magic := by
  have hlength : magic.length = 2 := rfl
  rw [datagram, List.append_assoc, List.append_assoc, List.take_left' hlength]

theorem parseChunk_datagram {chunk : Chunk} (h : chunk.id.length = 8) :
    parseChunk chunk.datagram = some chunk := by
  have htwo : magic.length = 2 := rfl
  have hid : (chunk.datagram.drop 2).take 8 = chunk.id := by
    rw [Chunk.datagram, List.append_assoc, List.append_assoc, List.drop_left' htwo,
      List.take_left' h]
  have hrest : chunk.datagram.drop 10 = chunk.sequence :: chunk.count :: chunk.slice := by
    have hlength : (magic ++ chunk.id).length = 10 := by rw [List.length_append, htwo, h]
    rw [Chunk.datagram, List.append_assoc, List.drop_left' hlength]
    rfl
  rw [parseChunk, hrest]
  dsimp only
  rw [if_pos chunk.take_datagram, hid]

theorem receive_of_magic {datagrams : List Bytes} (hne : datagrams ≠ [])
    (h : ∀ d ∈ datagrams, d.take 2 = magic) : receive datagrams = reassemble datagrams := by
  cases datagrams with
  | nil => exact absurd rfl hne
  | cons d datagrams => exact if_pos (h d List.mem_cons_self)

theorem receive_of_eq {datagrams : List Bytes} {d : Bytes} (hne : datagrams ≠ [])
    (hd : d.take 2 ≠ magic) (h : ∀ d' ∈ datagrams, d' = d) : receive datagrams = some d := by
  cases datagrams with
  | nil => exact absurd rfl hne
  | cons d' datagrams =>
    rw [receive, h d' List.mem_cons_self]
    exact if_neg hd

theorem ofNat_inj {i j : ℕ} (hi : i < 256) (hj : j < 256) :
    (UInt8.ofNat i = UInt8.ofNat j) ↔ i = j := by
  rw [← UInt8.toNat_inj, UInt8.toNat_ofNat', UInt8.toNat_ofNat', Nat.mod_eq_of_lt hi,
    Nat.mod_eq_of_lt hj]

/-- Slices that are all there, and of which there is one for each sequence number, are joined. -/
theorem joinSlices_eq {chunks : List Chunk} {slice : ℕ → Bytes} {n : ℕ}
    (hthere : ∀ i < n, ∃ chunk ∈ chunks, chunk.sequence = .ofNat i)
    (hslice : ∀ i < n, ∀ chunk ∈ chunks, chunk.sequence = .ofNat i → chunk.slice = slice i) :
    joinSlices chunks n = some ((List.range n).flatMap slice) := by
  induction n with
  | zero => rfl
  | succ n ih =>
    have hfront := ih (fun i hi => hthere i (Nat.lt_succ_of_lt hi))
      fun i hi => hslice i (Nat.lt_succ_of_lt hi)
    obtain ⟨chunk, hmem, hsequence⟩ := hthere n n.lt_succ_self
    have hsome : (chunks.find? fun chunk => decide (chunk.sequence = .ofNat n)).isSome = true :=
      List.find?_isSome.mpr ⟨chunk, hmem, decide_eq_true hsequence⟩
    obtain ⟨found, hfound⟩ := Option.isSome_iff_exists.mp hsome
    have hfoundSequence := List.find?_some hfound
    rw [decide_eq_true_iff] at hfoundSequence
    have heq : found.slice = slice n :=
      hslice n n.lt_succ_self found (List.mem_of_find?_eq_some hfound) hfoundSequence
    rw [joinSlices, hfront, hfound, List.range_succ, List.flatMap_append, List.flatMap_singleton,
      ← heq]
    rfl

/-- **Chunks of one message are joined to it**: `n` chunks with the same id, whose sequence
numbers are the numbers below `n`, in any order and with duplicates. -/
theorem reassemble_eq {id : Bytes} (hid : id.length = 8) {n : ℕ} (hpos : 0 < n) (hn : n < 256)
    {slice : ℕ → Bytes} {received : List Bytes}
    (h : ∀ d, d ∈ received ↔ ∃ i < n, d = Chunk.datagram ⟨id, .ofNat i, .ofNat n, slice i⟩) :
    reassemble received = some ((List.range n).flatMap slice) := by
  have hparse : ∀ i, parseChunk (Chunk.datagram ⟨id, .ofNat i, .ofNat n, slice i⟩) =
      some ⟨id, .ofNat i, .ofNat n, slice i⟩ := fun i => parseChunk_datagram hid
  have hchunks : ∀ chunk, chunk ∈ received.filterMap parseChunk ↔
      ∃ i < n, chunk = ⟨id, .ofNat i, .ofNat n, slice i⟩ := by
    intro chunk
    rw [List.mem_filterMap]
    constructor
    · rintro ⟨d, hd, hchunk⟩
      obtain ⟨i, hi, rfl⟩ := (h d).mp hd
      rw [hparse] at hchunk
      exact ⟨i, hi, (Option.some.inj hchunk).symm⟩
    · rintro ⟨i, hi, rfl⟩
      exact ⟨_, (h _).mpr ⟨i, hi, rfl⟩, hparse i⟩
  obtain ⟨first, rest, hfirst⟩ : ∃ first rest, received.filterMap parseChunk = first :: rest :=
    List.exists_cons_of_ne_nil
      (List.ne_nil_of_mem ((hchunks ⟨id, .ofNat 0, .ofNat n, slice 0⟩).mpr ⟨0, hpos, rfl⟩))
  obtain ⟨i, -, rfl⟩ := (hchunks first).mp (hfirst ▸ List.mem_cons_self)
  have hcount : (UInt8.ofNat n).toNat = n := by
    rw [UInt8.toNat_ofNat', Nat.mod_eq_of_lt hn]
  rw [reassemble, hfirst]
  dsimp only [List.head?_cons, Option.bind_eq_bind, Option.bind_some]
  rw [← hfirst, hcount]
  refine joinSlices_eq (fun j hj => ?_) fun j hj chunk hchunk hsequence => ?_
  · refine ⟨⟨id, .ofNat j, .ofNat n, slice j⟩, ?_, rfl⟩
    exact List.mem_filter.mpr ⟨(hchunks _).mpr ⟨j, hj, rfl⟩, decide_eq_true rfl⟩
  · obtain ⟨k, hk, rfl⟩ := (hchunks chunk).mp (List.mem_filter.mp hchunk).1
    rw [(ofNat_inj (by omega) (by omega)).mp hsequence]

/-! ## Chunks of several messages -/

/-- The chunks with a message id, among datagrams of any kind. -/
def chunksOf (id : Bytes) (datagrams : List Bytes) : List Bytes :=
  datagrams.filter fun datagram => (parseChunk datagram).any fun chunk => chunk.id = id

/-- A datagram that is not a chunk is none of the message. -/
theorem parseChunk_eq_none {datagram : Bytes} (h : datagram.take 2 ≠ magic) :
    parseChunk datagram = none := by
  rw [parseChunk]
  split
  · exact if_neg h
  · rfl

theorem mem_chunksOf_datagram {id : Bytes} {datagrams : List Bytes} {chunk : Chunk}
    (h : chunk.id.length = 8) :
    chunk.datagram ∈ chunksOf id datagrams ↔ chunk.datagram ∈ datagrams ∧ chunk.id = id := by
  rw [chunksOf, List.mem_filter, parseChunk_datagram h, Option.any_some, decide_eq_true_iff]

/-- Slices are joined only when none is missing. -/
theorem exists_of_joinSlices {chunks : List Chunk} {n : ℕ} {text : Bytes}
    (h : joinSlices chunks n = some text) :
    ∀ i < n, ∃ chunk ∈ chunks, chunk.sequence = .ofNat i := by
  induction n generalizing text with
  | zero => exact fun i hi => absurd hi (Nat.not_lt_zero i)
  | succ n ih =>
    rw [joinSlices] at h
    obtain ⟨front, hfront, hrest⟩ := Option.bind_eq_some_iff.mp h
    obtain ⟨chunk, hchunk, -⟩ := Option.bind_eq_some_iff.mp hrest
    intro i hi
    rcases Nat.lt_succ_iff_lt_or_eq.mp hi with hlt | rfl
    · exact ih hfront i hlt
    · have hsequence := List.find?_some hchunk
      rw [decide_eq_true_iff] at hsequence
      exact ⟨chunk, List.mem_of_find?_eq_some hchunk, hsequence⟩

/-- **No mixture**: what is joined of some of the chunks of one message is the message. -/
theorem eq_of_reassemble {id : Bytes} (hid : id.length = 8) {n : ℕ} (hn : n < 256)
    {slice : ℕ → Bytes} {received : List Bytes} {text : Bytes}
    (h : ∀ d ∈ received, ∃ i < n, d = Chunk.datagram ⟨id, .ofNat i, .ofNat n, slice i⟩)
    (hsome : reassemble received = some text) : text = (List.range n).flatMap slice := by
  have hchunks : ∀ chunk ∈ received.filterMap parseChunk,
      ∃ i < n, chunk = ⟨id, .ofNat i, .ofNat n, slice i⟩ ∧ chunk.datagram ∈ received := by
    intro chunk hchunk
    obtain ⟨d, hd, hparse⟩ := List.mem_filterMap.mp hchunk
    obtain ⟨i, hi, rfl⟩ := h d hd
    rw [parseChunk_datagram hid] at hparse
    obtain rfl := Option.some.inj hparse
    exact ⟨i, hi, rfl, hd⟩
  rw [reassemble] at hsome
  obtain ⟨first, hfirst, hjoin⟩ := Option.bind_eq_some_iff.mp hsome
  obtain ⟨j, hj, rfl, -⟩ := hchunks first (List.mem_of_mem_head? hfirst)
  have hcount : (UInt8.ofNat n).toNat = n := by
    rw [UInt8.toNat_ofNat', Nat.mod_eq_of_lt hn]
  dsimp only at hjoin
  rw [hcount] at hjoin
  have hall : ∀ i < n, Chunk.datagram ⟨id, .ofNat i, .ofNat n, slice i⟩ ∈ received := by
    intro i hi
    obtain ⟨chunk, hmem, hsequence⟩ := exists_of_joinSlices hjoin i hi
    obtain ⟨k, hk, rfl, hd⟩ := hchunks chunk (List.mem_filter.mp hmem).1
    rwa [(ofNat_inj (Nat.lt_trans hk hn) (Nat.lt_trans hi hn)).mp hsequence] at hd
  have hreassemble := reassemble_eq hid (Nat.zero_lt_of_lt hj) hn fun d =>
    ⟨h d, fun ⟨i, hi, hd⟩ => hd ▸ hall i hi⟩
  rw [reassemble, Option.bind_eq_bind, hfirst, Option.bind_some] at hreassemble
  dsimp only at hreassemble
  rw [hcount, hjoin] at hreassemble
  exact Option.some.inj hreassemble

end Gelf
