import Mathlib.Algebra.Group.Nat.Defs
import Logspine.Bytes

/-!
# `zlib_helper.cpp`

`compress_impl` over what it relies on of zlib: `deflate` with `Z_FINISH` writes the
compressed stream of the `avail_in` bytes it is given, in rounds of at most the size of
the output buffer, returns `Z_OK` while output remains and `Z_STREAM_END` with the last
round. `avail_in` has 32 bits, so that a longer input is cut (`compressesWhole_iff`).
-/

namespace Logspine

/-- The size of `outbuffer`. -/
def outbufferSize : ℕ := 32768

/-- zlib, at one setting of `window_bits`. -/
structure Deflate where
  /-- what the rounds on an input write, `none` when `deflateInit2` fails -/
  rounds : Bytes → Option (List Bytes)
  /-- the input of a compressed stream -/
  inflate : Bytes → Option Bytes
  rounds_ne_nil : ∀ {input : Bytes} {written : List Bytes},
    rounds input = some written → written ≠ []
  length_le : ∀ {input : Bytes} {written : List Bytes},
    rounds input = some written → ∀ text ∈ written, text.length ≤ outbufferSize
  inflate_flatten : ∀ {input : Bytes} {written : List Bytes},
    rounds input = some written → inflate written.flatten = some input
  /-- a stream that breaks off is recognised -/
  inflate_take : ∀ {input : Bytes} {written : List Bytes}, rounds input = some written →
    ∀ n < written.flatten.length, inflate (written.flatten.take n) = none

/-- zlib -/
structure Zlib where
  /-- `deflateInit2` with these `window_bits` -/
  deflate : ℕ → Deflate

/-- The loop of `compress_impl`, on what each of its rounds writes to `next_out`. -/
def compressLoop (outbuffer : Bytes) (totalOut : ℕ) (output : Bytes) : List Bytes → Bytes
  | [] => output
  | written :: rest =>
    let outbuffer := written ++ outbuffer.drop written.length
    let totalOut := totalOut + written.length
    let output :=
      if output.length < totalOut then output ++ outbuffer.take (totalOut - output.length)
      else output
    compressLoop outbuffer totalOut output rest

/-- `compress_impl`: the output, and whether it returns true. -/
def compressImpl (deflate : Deflate) (input output : Bytes) : Bytes × Bool :=
  let availIn := input.length % 2 ^ 32
  match deflate.rounds (input.take availIn) with
  | none => (output, false)
  | some written => (compressLoop (List.replicate outbufferSize 0) 0 output written, true)

/-- `gzip_compress` -/
def gzipCompress (zlib : Zlib) (input output : Bytes) : Bytes × Bool :=
  compressImpl (zlib.deflate (15 + 16)) input output

/-- `zlib_compress` -/
def zlibCompress (zlib : Zlib) (input output : Bytes) : Bytes × Bool :=
  compressImpl (zlib.deflate 15) input output

/-- The loop appends what the rounds write, whatever else the buffer holds. -/
theorem compressLoop_eq (written : List Bytes) (outbuffer output : Bytes) :
    compressLoop outbuffer output.length output written = output ++ written.flatten := by
  induction written generalizing outbuffer output with
  | nil => rw [compressLoop, List.flatten_nil, List.append_nil]
  | cons text rest ih =>
    have hout : (if output.length < output.length + text.length then
        output ++ (text ++ outbuffer.drop text.length).take
          (output.length + text.length - output.length)
        else output) = output ++ text := by
      split
      case isTrue => rw [Nat.add_sub_cancel_left, List.take_left]
      case isFalse h =>
        have hlen : text.length = 0 := by omega
        rw [List.length_eq_zero_iff.mp hlen, List.append_nil]
    have hrest := ih (text ++ outbuffer.drop text.length) (output ++ text)
    rw [List.length_append, List.append_assoc] at hrest
    rw [compressLoop, List.flatten_cons]
    rw [hout]
    exact hrest

/-- `compress_impl` into an empty string: the whole stream of the first `avail_in` bytes. -/
theorem compressImpl_nil (deflate : Deflate) (input : Bytes) :
    compressImpl deflate input [] =
      match deflate.rounds (input.take (input.length % 2 ^ 32)) with
      | none => ([], false)
      | some written => (written.flatten, true) := by
  rw [compressImpl]
  cases deflate.rounds (input.take (input.length % 2 ^ 32)) with
  | none => rfl
  | some written =>
    have hloop := compressLoop_eq written (List.replicate outbufferSize 0) []
    rw [List.nil_append] at hloop
    exact Prod.ext hloop rfl

/-! ## Whole inputs -/

/-- If `compress_impl` returns true, then the output is the whole stream that `deflate` wrote,
and it decompresses to the whole input. -/
def Deflate.CompressesWhole (deflate : Deflate) (input : Bytes) : Prop :=
  ∀ output, compressImpl deflate input [] = (output, true) →
    (∃ written, deflate.rounds (input.take (input.length % 2 ^ 32)) = some written ∧
      output = written.flatten) ∧
    deflate.inflate output = some input

/-- **The whole input is compressed exactly when `avail_in` can hold its length**, or when
`deflateInit2` fails and nothing is compressed. -/
theorem compressesWhole_iff (deflate : Deflate) (input : Bytes) :
    deflate.CompressesWhole input ↔ input.length < 2 ^ 32 ∨
      deflate.rounds (input.take (input.length % 2 ^ 32)) = none := by
  have himpl := compressImpl_nil deflate input
  cases hrounds : deflate.rounds (input.take (input.length % 2 ^ 32)) with
  | none =>
    rw [hrounds] at himpl
    refine iff_of_true (fun output houtput => ?_) (.inr rfl)
    rw [himpl] at houtput
    cases houtput
  | some written =>
    rw [hrounds] at himpl
    have hinflate := deflate.inflate_flatten hrounds
    constructor
    · intro h
      obtain ⟨-, hwhole⟩ := h _ himpl
      rw [hinflate, Option.some_inj] at hwhole
      have hlength := congrArg List.length hwhole
      have hlt := Nat.mod_lt input.length (Nat.two_pow_pos 32)
      rw [List.length_take] at hlength
      exact .inl (by omega)
    · intro h output houtput
      have hlt : input.length < 2 ^ 32 := by
        rcases h with hlt | hnone
        · exact hlt
        · cases hnone
      rw [Nat.mod_eq_of_lt hlt, List.take_length] at hinflate
      rw [himpl] at houtput
      cases houtput
      exact ⟨⟨written, hrounds, rfl⟩, hinflate⟩

/-- What zlib writes for an empty input. -/
def emptyStream : Bytes := [0x78, 0x9c, 0x03, 0x00, 0x00, 0x00, 0x00, 0x01]

/-- zlib, as far as it compresses an empty input. -/
def emptyDeflate : Deflate where
  rounds input := if input = [] then some [emptyStream] else none
  inflate stream := if stream = emptyStream then some [] else none
  rounds_ne_nil := by
    intro input written h
    split at h <;> cases h
    exact List.cons_ne_nil _ _
  length_le := by
    intro input written h
    split at h <;> cases h
    exact List.forall_mem_singleton.mpr (by decide)
  inflate_flatten := by
    intro input written h
    split at h
    case isTrue hempty =>
      cases h
      rw [hempty, List.flatten_singleton, if_pos rfl]
    case isFalse => cases h
  inflate_take := by
    intro input written h n hn
    split at h <;> cases h
    rw [List.flatten_singleton] at hn ⊢
    refine if_neg fun htake => ?_
    have hlength := congrArg List.length htake
    rw [List.length_take] at hlength
    omega

/-- 4 GiB are compressed to the stream of an empty input. -/
theorem not_compressesWhole_fourGiB :
    compressImpl emptyDeflate (List.replicate (2 ^ 32) 'a'.byte) [] = (emptyStream, true) ∧
      ¬ emptyDeflate.CompressesWhole (List.replicate (2 ^ 32) 'a'.byte) := by
  have himpl : compressImpl emptyDeflate (List.replicate (2 ^ 32) 'a'.byte) [] =
      (emptyStream, true) := by
    rw [compressImpl_nil, List.length_replicate, Nat.mod_self, List.take_zero]
    rfl
  refine ⟨himpl, fun h => ?_⟩
  obtain ⟨-, hinflate⟩ := h _ himpl
  have hempty : emptyDeflate.inflate emptyStream = some [] := rfl
  rw [hempty, Option.some_inj] at hinflate
  have hlength := congrArg List.length hinflate
  rw [List.length_replicate, List.length_nil] at hlength
  exact absurd hlength (by decide)

end Logspine
