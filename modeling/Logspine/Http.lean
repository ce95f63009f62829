import Logspine.Bytes

/-!
# Requests on a stream

A reader of HTTP/1.1 requests that carry a `Content-Length`: the header block ends at the
first CRLF CRLF, the header says how many bytes of body follow, and the next request begins
behind them. What a header block of lines without CR and LF frames is read back, whatever
the body holds (`readRequests_flatMap`).
-/

namespace Http

/-- carriage return -/
abbrev cr : UInt8 := '\r'.byte

/-- line feed -/
abbrev lf : UInt8 := '\n'.byte

/-- The end of a line. -/
def crlf : Bytes := [cr, lf]

/-! ## The reader -/

/-- Split a stream at the first CRLF CRLF. -/
def splitBlock : Bytes → Option (Bytes × Bytes)
  | [] => none
  | b :: bs =>
    if (crlf ++ crlf).isPrefixOf (b :: bs) then some ([], bs.drop 3)
    else (splitBlock bs).map (Prod.map (b :: ·) id)

/-- Put a byte in front of the first line. -/
def consFirst (b : UInt8) : List Bytes → List Bytes
  | [] => [[b]]
  | line :: lines => (b :: line) :: lines

/-- The lines of a header block. -/
def splitLines : Bytes → List Bytes
  | [] => [[]]
  | [b] => [[b]]
  | b :: c :: bs =>
    if b = cr ∧ c = lf then [] :: splitLines bs else consFirst b (splitLines (c :: bs))

/-- An ASCII letter in lower case. -/
def lower (b : UInt8) : UInt8 := if 'A'.byte ≤ b ∧ b ≤ 'Z'.byte then b + 0x20 else b

/-- The name of a header, in lower case. -/
def headerName (line : Bytes) : Bytes := (line.takeWhile (· ≠ ':'.byte)).map lower

/-- The value of a header, without the blanks before it. -/
def headerValue (line : Bytes) : Bytes :=
  ((line.dropWhile (· ≠ ':'.byte)).drop 1).dropWhile (· = ' '.byte)

/-- A `Content-Length` header. -/
def isContentLength (line : Bytes) : Bool := headerName line = ascii "content-length"

/-- The value of the single `Content-Length` header. -/
def contentLength (headers : List Bytes) : Option ℕ :=
  match headers.filter isContentLength with
  | [line] =>
    let value := headerValue line
    if !value.isEmpty && value.all isDigit then some (decimal value) else none
  | _ => none

/-- Take a request off a stream: its body, and what follows. -/
def readRequest (stream : Bytes) : Option (Bytes × Bytes) := do
  let (block, rest) ← splitBlock stream
  let length ← contentLength (splitLines block).tail
  if length ≤ rest.length then some (rest.take length, rest.drop length) else none

/-- The bodies of the requests on a stream, `none` if it does not end with a request. There
are at most `fuel` requests. -/
def readBodies : ℕ → Bytes → Option (List Bytes)
  | _, [] => some []
  | 0, _ :: _ => none
  | fuel + 1, b :: bs => do
    let (body, rest) ← readRequest (b :: bs)
    let bodies ← readBodies fuel rest
    return body :: bodies

/-- The bodies of the requests on a stream. No request is empty, so that there are no more of
them than bytes. -/
def readRequests (stream : Bytes) : Option (List Bytes) := readBodies stream.length stream

/-! ## Header blocks -/

theorem splitBlock_append {line : Bytes} (h : cr ∉ line) (bs : Bytes) :
    splitBlock (line ++ bs) = (splitBlock bs).map (Prod.map (line ++ ·) id) := by
  induction line with
  | nil =>
    rw [List.nil_append]
    cases splitBlock bs with
    | none => rfl
    | some split => rfl
  | cons b line ih =>
    have hb : b ≠ cr := fun heq => h (heq ▸ List.mem_cons_self)
    have hprefix : ¬ (crlf ++ crlf).isPrefixOf (b :: (line ++ bs)) = true := by
      intro hprefix
      exact hb (List.cons_prefix_cons.mp (List.isPrefixOf_iff_prefix.mp hprefix)).1.symm
    rw [List.cons_append, splitBlock, if_neg hprefix, ih fun hm => h (List.mem_cons_of_mem b hm)]
    cases splitBlock bs with
    | none => rfl
    | some split => rfl

/-- A line end with something behind it does not end the block. -/
theorem splitBlock_crlf {b : UInt8} (hb : b ≠ cr) (bs : Bytes) : splitBlock (crlf ++ b :: bs) =
    (splitBlock (b :: bs)).map (Prod.map (crlf ++ ·) id) := by
  have hprefix : ¬ (crlf ++ crlf).isPrefixOf (cr :: lf :: b :: bs) = true := by
    intro hprefix
    obtain ⟨-, hprefix⟩ := List.cons_prefix_cons.mp (List.isPrefixOf_iff_prefix.mp hprefix)
    obtain ⟨-, hprefix⟩ := List.cons_prefix_cons.mp hprefix
    exact hb (List.cons_prefix_cons.mp hprefix).1.symm
  have hlf : cr ∉ [lf] := by decide
  have hrest := splitBlock_append hlf (b :: bs)
  rw [List.singleton_append] at hrest
  rw [crlf, List.cons_append, List.singleton_append, splitBlock, if_neg hprefix, hrest]
  cases splitBlock (b :: bs) with
  | none => rfl
  | some split => rfl

theorem splitBlock_end (bs : Bytes) : splitBlock (crlf ++ (crlf ++ bs)) = some ([], bs) := rfl

/-- A header block is what comes before the first CRLF CRLF. -/
theorem splitBlock_lines {first : Bytes} (hfirst : cr ∉ first) {headers : List Bytes}
    (hheaders : ∀ line ∈ headers, line ≠ [] ∧ cr ∉ line) (bs : Bytes) :
    splitBlock (first ++ headers.flatMap (crlf ++ ·) ++ (crlf ++ (crlf ++ bs))) =
      some (first ++ headers.flatMap (crlf ++ ·), bs) := by
  induction headers generalizing first with
  | nil =>
    rw [List.flatMap_nil, List.append_nil, splitBlock_append hfirst, splitBlock_end,
      Option.map_some, Prod.map_apply, List.append_nil, id]
  | cons line headers ih =>
    obtain ⟨⟨hne, hline⟩, hheaders⟩ := List.forall_mem_cons.mp hheaders
    have hrest := ih hline hheaders
    rw [List.flatMap_cons, List.append_assoc, splitBlock_append hfirst]
    cases line with
    | nil => exact absurd rfl hne
    | cons b line =>
      have hb : b ≠ cr := fun heq => hline (heq ▸ List.mem_cons_self)
      rw [List.append_assoc, List.append_assoc, List.cons_append, splitBlock_crlf hb,
        ← List.cons_append, ← List.append_assoc (b :: line), hrest]
      simp only [Option.map_some, Prod.map_apply, List.append_assoc, id]

theorem splitLines_cons {b : UInt8} (h : b ≠ cr) (bs : Bytes) :
    splitLines (b :: bs) = consFirst b (splitLines bs) := by
  cases bs with
  | nil => rfl
  | cons c bs => rw [splitLines, if_neg fun hcrlf => h hcrlf.1]

theorem splitLines_of_notMem {line : Bytes} (h : cr ∉ line) : splitLines line = [line] := by
  induction line with
  | nil => rfl
  | cons b line ih =>
    have hb : b ≠ cr := fun heq => h (heq ▸ List.mem_cons_self)
    rw [splitLines_cons hb, ih fun hm => h (List.mem_cons_of_mem b hm)]
    rfl

theorem splitLines_append {line : Bytes} (h : cr ∉ line) (bs : Bytes) :
    splitLines (line ++ (crlf ++ bs)) = line :: splitLines bs := by
  induction line with
  | nil => exact if_pos ⟨rfl, rfl⟩
  | cons b line ih =>
    have hb : b ≠ cr := fun heq => h (heq ▸ List.mem_cons_self)
    rw [List.cons_append, splitLines_cons hb, ih fun hm => h (List.mem_cons_of_mem b hm)]
    rfl

theorem splitLines_lines {first : Bytes} (hfirst : cr ∉ first) {headers : List Bytes}
    (hheaders : ∀ line ∈ headers, cr ∉ line) :
    splitLines (first ++ headers.flatMap (crlf ++ ·)) = first :: headers := by
  induction headers generalizing first with
  | nil => rw [List.flatMap_nil, List.append_nil, splitLines_of_notMem hfirst]
  | cons line headers ih =>
    obtain ⟨hline, hheaders⟩ := List.forall_mem_cons.mp hheaders
    rw [List.flatMap_cons, List.append_assoc, splitLines_append hfirst, ih hline hheaders]

/-! ## Headers -/

/-- A header line. -/
def headerLine (name value : Bytes) : Bytes := name ++ ':'.byte :: ' '.byte :: value

theorem headerLine_ne_nil (name value : Bytes) : headerLine name value ≠ [] :=
  List.append_ne_nil_of_right_ne_nil name (List.cons_ne_nil _ _)

theorem notMem_headerLine {name value : Bytes} (hname : cr ∉ name) (hvalue : cr ∉ value) :
    cr ∉ headerLine name value := by
  have hcolon : cr ∉ [':'.byte, ' '.byte] := by decide
  exact List.not_mem_append hname (List.not_mem_append hcolon hvalue)

theorem headerName_headerLine {name : Bytes} (h : ':'.byte ∉ name) (value : Bytes) :
    headerName (headerLine name value) = name.map lower := by
  have hname : ∀ b ∈ name, decide (b ≠ ':'.byte) = true :=
    fun b hb => decide_eq_true fun heq => h (heq ▸ hb)
  rw [headerName, headerLine, List.takeWhile_append_of_pos hname,
    List.takeWhile_cons_of_neg (by decide), List.append_nil]

theorem isContentLength_headerLine {name : Bytes} (h : ':'.byte ∉ name) (value : Bytes) :
    isContentLength (headerLine name value) = decide (name.map lower = ascii "content-length") := by
  rw [isContentLength, headerName_headerLine h]

theorem headerValue_headerLine {name : Bytes} (h : ':'.byte ∉ name) {value : Bytes}
    (hvalue : ∀ b ∈ value, b ≠ ' '.byte) : headerValue (headerLine name value) = value := by
  have hname : ∀ b ∈ name, decide (b ≠ ':'.byte) = true :=
    fun b hb => decide_eq_true fun heq => h (heq ▸ hb)
  rw [headerValue, headerLine, List.dropWhile_append_of_pos hname,
    List.dropWhile_cons_of_neg (by decide), List.drop_one, List.tail_cons,
    List.dropWhile_cons_of_pos (by decide)]
  cases value with
  | nil => rfl
  | cons b value =>
    exact List.dropWhile_cons_of_neg
      fun heq => hvalue b List.mem_cons_self (of_decide_eq_true heq)

/-- The header that states the length, alone of its name, gives the length. -/
theorem contentLength_eq {headers : List Bytes} {n : ℕ}
    (h : headers.filter isContentLength = [headerLine (ascii "Content-Length") (natural n)]) :
    contentLength headers = some n := by
  have hblank : ∀ b ∈ natural n, b ≠ ' '.byte := by
    rintro b hb rfl
    cases isDigit_of_mem_natural hb
  have hdigits : (!(natural n).isEmpty && (natural n).all isDigit) = true := by
    rw [Bool.and_eq_true, List.all_eq_true]
    refine ⟨?_, fun b hb => isDigit_of_mem_natural hb⟩
    obtain ⟨d, ds, heq, -⟩ := natural_eq_cons n
    rw [heq]
    rfl
  rw [contentLength, h]
  dsimp only
  rw [headerValue_headerLine (by decide) hblank, if_pos hdigits, decimal_natural]

/-! ## Requests -/

/-- A request whose single `Content-Length` is the length of its body is taken off a stream. -/
theorem readRequest_append {first : Bytes} (hfirst : cr ∉ first) {headers : List Bytes}
    (hheaders : ∀ line ∈ headers, line ≠ [] ∧ cr ∉ line) {body : Bytes}
    (hlength : contentLength headers = some body.length) (rest : Bytes) :
    readRequest (first ++ headers.flatMap (crlf ++ ·) ++ (crlf ++ (crlf ++ (body ++ rest)))) =
      some (body, rest) := by
  have hle : body.length ≤ (body ++ rest).length := by
    rw [List.length_append]
    exact Nat.le_add_right _ _
  rw [readRequest, splitBlock_lines hfirst hheaders]
  dsimp only [Option.bind_eq_bind, Option.bind_some]
  rw [splitLines_lines hfirst fun line hline => (hheaders line hline).2, List.tail_cons, hlength,
    Option.bind_some, if_pos hle, List.take_left, List.drop_left]

/-- **Requests that are read one by one are read as a stream.** -/
theorem readRequests_flatMap {request : Bytes → Bytes}
    (h : ∀ body rest, readRequest (request body ++ rest) = some (body, rest))
    (bodies : List Bytes) : readRequests (bodies.flatMap request) = some bodies := by
  have hne : ∀ body, request body ≠ [] := by
    intro body hnil
    have hread := h body []
    rw [hnil, List.append_nil] at hread
    cases hread
  have hfuel : ∀ bodies : List Bytes, ∀ fuel, (bodies.flatMap request).length ≤ fuel →
      readBodies fuel (bodies.flatMap request) = some bodies := by
    intro bodies
    induction bodies with
    | nil =>
      intro fuel _
      cases fuel with
      | zero => rfl
      | succ fuel => rfl
    | cons body bodies ih =>
      intro fuel hle
      have hread := h body (bodies.flatMap request)
      rw [List.flatMap_cons] at hle ⊢
      cases hrequest : request body with
      | nil => exact absurd hrequest (hne body)
      | cons b bs =>
        rw [hrequest] at hread hle
        rw [List.cons_append] at hread hle ⊢
        cases fuel with
        | zero => cases hle
        | succ fuel =>
          have hrest : (bodies.flatMap request).length ≤ fuel := by
            rw [List.length_cons, List.length_append] at hle
            omega
          rw [readBodies, hread]
          dsimp only [Option.bind_eq_bind, Option.bind_some]
          rw [ih fuel hrest]
          rfl
  exact hfuel bodies _ (Nat.le_refl _)

/-! ## Streams that break off -/

/-- The requests that a stream begins with, at most `fuel`, and what is left of it. -/
def readWhole : ℕ → Bytes → List Bytes × Bytes
  | 0, stream => ([], stream)
  | fuel + 1, stream =>
    match readRequest stream with
    | some (body, rest) => (body :: (readWhole fuel rest).1, (readWhole fuel rest).2)
    | none => ([], stream)

/-- The bodies of the requests that are whole on a stream, and what is left of it. -/
def readStream (stream : Bytes) : List Bytes × Bytes := readWhole stream.length stream

/-- More bytes do not move the end of a header block. -/
theorem splitBlock_mono {bs block rest : Bytes} (h : splitBlock bs = some (block, rest))
    (more : Bytes) : splitBlock (bs ++ more) = some (block, rest ++ more) := by
  have hlength : ∀ {bs split}, splitBlock bs = some split → 4 ≤ bs.length := by
    intro bs
    induction bs with
    | nil => exact fun h => by cases h
    | cons b bs ih =>
      intro split h
      rw [splitBlock] at h
      by_cases hend : (crlf ++ crlf).isPrefixOf (b :: bs) = true
      · exact (List.isPrefixOf_iff_prefix.mp hend).length_le
      · rw [if_neg hend] at h
        obtain ⟨split', h', -⟩ := Option.map_eq_some_iff.mp h
        exact Nat.le_succ_of_le (ih h')
  induction bs generalizing block with
  | nil => cases h
  | cons b bs ih =>
    rw [splitBlock] at h
    rw [List.cons_append, splitBlock]
    by_cases hend : (crlf ++ crlf).isPrefixOf (b :: bs) = true
    · rw [if_pos hend] at h
      have hprefix := List.isPrefixOf_iff_prefix.mp hend
      have hthree : 3 ≤ bs.length := Nat.le_of_succ_le_succ hprefix.length_le
      obtain ⟨rfl, rfl⟩ := Prod.mk.inj (Option.some.inj h)
      rw [if_pos, List.drop_append_of_le_length hthree]
      exact List.isPrefixOf_iff_prefix.mpr
        (List.IsPrefix.trans hprefix (List.prefix_append (b :: bs) more))
    · rw [if_neg hend] at h
      obtain ⟨⟨block', rest'⟩, h', heq⟩ := Option.map_eq_some_iff.mp h
      obtain ⟨rfl, rfl⟩ := Prod.mk.inj heq
      rw [if_neg, ih h', Option.map_some]
      · rfl
      · intro hend'
        refine hend (List.isPrefixOf_iff_prefix.mpr ?_)
        refine List.prefix_of_prefix_length_le (List.isPrefixOf_iff_prefix.mp hend')
          (List.prefix_append (b :: bs) more) ?_
        exact Nat.le_succ_of_le (hlength h')

/-- What `readRequest` finds. -/
theorem readRequest_eq_some {stream body rest : Bytes} :
    readRequest stream = some (body, rest) ↔ ∃ block behind length,
      splitBlock stream = some (block, behind) ∧
      contentLength (splitLines block).tail = some length ∧ length ≤ behind.length ∧
      behind.take length = body ∧ behind.drop length = rest := by
  rw [readRequest]
  constructor
  · intro h
    obtain ⟨⟨block, behind⟩, hsplit, h⟩ := Option.bind_eq_some_iff.mp h
    obtain ⟨length, hlength, h⟩ := Option.bind_eq_some_iff.mp h
    obtain ⟨hle, heq⟩ := Option.ite_none_right_eq_some.mp h
    obtain ⟨rfl, rfl⟩ := Prod.mk.inj (Option.some.inj heq)
    exact ⟨block, behind, length, hsplit, hlength, hle, rfl, rfl⟩
  · rintro ⟨block, behind, length, hsplit, hlength, hle, rfl, rfl⟩
    refine Option.bind_eq_some_iff.mpr ⟨(block, behind), hsplit, ?_⟩
    exact Option.bind_eq_some_iff.mpr ⟨length, hlength, if_pos hle⟩

/-- **A request that breaks off is none.** -/
theorem readRequest_of_prefix {request body tail : Bytes}
    (h : readRequest request = some (body, [])) (hbegin : tail <+: request)
    (hne : tail ≠ request) : readRequest tail = none := by
  obtain ⟨block, behind, length, hsplit, hlength, -, -, hdrop⟩ := readRequest_eq_some.mp h
  obtain ⟨more, rfl⟩ := hbegin
  refine Option.eq_none_iff_forall_ne_some.mpr fun split hsome => hne ?_
  obtain ⟨block', behind', length', hsplit', hlength', hle, -, -⟩ := readRequest_eq_some.mp hsome
  have hmono := splitBlock_mono hsplit' more
  rw [hsplit] at hmono
  obtain ⟨rfl, rfl⟩ := Prod.mk.inj (Option.some.inj hmono)
  obtain rfl := Option.some.inj (hlength.symm.trans hlength')
  have hall := List.drop_eq_nil_iff.mp hdrop
  rw [List.length_append] at hall
  rw [List.length_eq_zero_iff.mp (by omega : more.length = 0), List.append_nil]

/-- **Requests are read up to where the stream breaks off.** -/
theorem readStream_flatMap {A : Type} {request body : A → Bytes}
    (h : ∀ x rest, readRequest (request x ++ rest) = some (body x, rest)) (xs : List A)
    {tail : Bytes} (htail : readRequest tail = none) :
    readStream (xs.flatMap request ++ tail) = (xs.map body, tail) := by
  have hpos : ∀ x, 0 < (request x).length := by
    intro x
    refine List.length_pos_iff.mpr fun hnil => ?_
    have hread := h x []
    rw [hnil, List.append_nil] at hread
    cases hread
  have hfuel : ∀ (xs : List A) (fuel : ℕ), (xs.flatMap request ++ tail).length ≤ fuel →
      readWhole fuel (xs.flatMap request ++ tail) = (xs.map body, tail) := by
    intro xs
    induction xs with
    | nil =>
      intro fuel _
      cases fuel with
      | zero => rfl
      | succ fuel =>
        rw [List.flatMap_nil, List.nil_append, readWhole, htail]
        rfl
    | cons x xs ih =>
      intro fuel hle
      rw [List.flatMap_cons, List.append_assoc, List.length_append] at hle
      cases fuel with
      | zero => exact absurd hle (Nat.not_le.mpr (Nat.add_pos_left (hpos x) _))
      | succ fuel =>
        have hx := hpos x
        rw [List.flatMap_cons, List.append_assoc, readWhole, h]
        dsimp only
        rw [ih fuel (by omega)]
        rfl
  exact hfuel xs _ (Nat.le_refl _)

end Http
