import Logspine.FileRotation

/-!
# Rotations that fail

`rotate_if_needed` ignores the error codes of its operations and truncates the active
file in any case. Its text is kept when the last round of the loop has brought it to the
newest rotated file, and lost when that round fails (`survives_iff`).
-/

namespace Logspine

variable {options : FileSinkOptions} {zlib : Option Zlib} {o : Outcomes}

/-- A file that holds a text, plainly or compressed. -/
def HoldsText (zlib : Option Zlib) (text file : Bytes) : Prop :=
  file = text ∨ ∃ z, zlib = some z ∧ (z.deflate (15 + 16)).inflate file = some text

/-- A text is held in `path` or in the newest rotated file. -/
def Survives (zlib : Option Zlib) (options : FileSinkOptions) (files : Files) (text : Bytes) :
    Prop :=
  files options.path = some text ∨
    ∃ file, files (options.rotatedPath zlib 1) = some file ∧ HoldsText zlib text file

/-- The archive that the last round writes, when it compresses. -/
def Outcomes.archive (o : Outcomes) (zlib : Option Zlib) (options : FileSinkOptions)
    (text : Bytes) : Option Bytes :=
  match zlib, options.compressRotated with
  | some zlib, true =>
    if o.sizes then
      match gzipCompress zlib (Files.read (o.reads text.length) text) [] with
      | (compressed, true) => some compressed
      | (_, false) => none
    else none
  | _, _ => none

/-- The operations of the last round bring the active file to the newest rotated one: they
find it, and rename it or write a complete archive of all its bytes, fewer than 2^32. -/
def Outcomes.Moves (o : Outcomes) (zlib : Option Zlib) (options : FileSinkOptions)
    (text : Bytes) : Prop :=
  o.finds 1 = true ∧
    match o.archive zlib options text with
    | some compressed => o.opensTarget = true ∧ compressed.length ≤ o.writes compressed.length ∧
        Files.read (o.reads text.length) text = text ∧ text.length < 2 ^ 32
    | none => o.renames 1 = true

/-- The old newest rotated file, if it was neither removed nor renamed. -/
def Outcomes.oldNewest (o : Outcomes) (zlib : Option Zlib) (options : FileSinkOptions)
    (files : Files) : Option Bytes :=
  if (if options.maxFiles = 1 then o.removes else o.finds 2 && o.renames 2) then none
  else files (options.rotatedPath zlib 1)

/-- The active file was not moved, and what the loop leaves at the newest rotated path is the
same text by coincidence: the part of an archive that was written, or the old file. -/
def Outcomes.Coincides (o : Outcomes) (zlib : Option Zlib) (options : FileSinkOptions)
    (files : Files) (text : Bytes) : Prop :=
  match o.archive zlib options text, o.finds 1 && o.opensTarget with
  | some compressed, true => compressed.take (o.writes compressed.length) = text
  | _, _ => ∃ file, o.oldNewest zlib options files = some file ∧ HoldsText zlib text file

namespace FileSink

/-! ## The rounds -/

theorem slotPath_ne {j k : ℕ} (h : j ≠ k) :
    options.slotPath zlib j ≠ options.slotPath zlib k :=
  fun heq => h (slotPath_injective heq)

theorem rotatedPath_one_ne : options.rotatedPath zlib 1 ≠ options.path := slotPath_succ_ne 0

/-- A round for an older file touches its source and its target. -/
theorem rotateStep_older {i : ℕ} (files : Files) :
    let files' := rotateStep zlib options o (i + 2) files
    files' (options.slotPath zlib (i + 1)) =
        (if o.finds (i + 2) && o.renames (i + 2) then none
          else files (options.slotPath zlib (i + 1))) ∧
      ∀ k < i + 1, files' (options.slotPath zlib k) = files (options.slotPath zlib k) := by
  obtain ⟨cleared, hcleared, hrest⟩ : ∃ cleared : Files,
      rotateStep zlib options o (i + 2) files = rotateOlder zlib options o (i + 2) cleared ∧
      ∀ k < i + 2, cleared (options.slotPath zlib k) = files (options.slotPath zlib k) := by
    refine ⟨if i + 2 = options.maxFiles then
      files.remove o.removes (options.rotatedPath zlib (i + 2)) else files, ?_, fun k hk => ?_⟩
    · rw [rotateStep, if_pos (by omega)]
    · split
      case isTrue => exact Files.remove_of_ne (slotPath_ne (k := i + 2) (by omega))
      case isFalse => rfl
  have hne : options.slotPath zlib (i + 1) ≠ options.slotPath zlib (i + 2) :=
    slotPath_ne (by omega)
  dsimp only
  rw [hcleared, rotateOlder]
  refine ⟨?_, fun k hk => ?_⟩
  · rw [← hrest (i + 1) (by omega)]
    change (if Files.contains (o.finds (i + 2)) (options.slotPath zlib (i + 1)) cleared then
      cleared.rename (o.renames (i + 2)) (options.slotPath zlib (i + 1))
        (options.slotPath zlib (i + 2)) else cleared) _ = _
    cases hfinds : o.finds (i + 2) with
    | false => rfl
    | true =>
      rw [Files.contains_true]
      cases hrenames : o.renames (i + 2) with
      | false =>
        rw [Files.rename_false, ite_self]
        rfl
      | true => rw [← Files.contains_true, Files.ite_contains_rename, Files.rename_source hne]; rfl
  · split
    case isTrue =>
      exact (Files.rename_of_ne (slotPath_ne (k := i + 1) (by omega))
        (slotPath_ne (k := i + 2) (by omega))).trans (hrest k (by omega))
    case isFalse => exact hrest k (by omega)

theorem rotateStep_one (hne : options.maxFiles ≠ 1) (files : Files) :
    rotateStep zlib options o 1 files = rotateActive zlib options o files := by
  rw [rotateStep, if_neg (Nat.lt_irrefl 1), if_neg fun h => hne h.symm]

/-- The rounds for the older files move the newest rotated one in the last of them. -/
theorem rotateLoop_older {i : ℕ} (hi : i + 2 ≤ options.maxFiles) (files : Files) :
    ∃ files', rotateLoop zlib options o (i + 2) files = rotateActive zlib options o files' ∧
      files' options.path = files options.path ∧
      files' (options.rotatedPath zlib 1) =
        if o.finds 2 && o.renames 2 then none else files (options.rotatedPath zlib 1) := by
  induction i generalizing files with
  | zero =>
    obtain ⟨hmoved, hrest⟩ := @rotateStep_older options zlib o 0 files
    refine ⟨rotateStep zlib options o 2 files, rotateStep_one (by omega) _, ?_, hmoved⟩
    exact hrest 0 (by omega)
  | succ i ih =>
    obtain ⟨-, hrest⟩ := @rotateStep_older options zlib o (i + 1) files
    obtain ⟨files', hloop, hpath, hnewest⟩ :=
      ih (by omega) (rotateStep zlib options o (i + 3) files)
    refine ⟨files', hloop, hpath.trans (hrest 0 (by omega)), hnewest.trans ?_⟩
    split
    case isTrue => rfl
    case isFalse => exact hrest 1 (by omega)

/-- Before the last round, the active file is in its place, and the newest rotated one only
if it could not be taken away. -/
theorem rotateLoop_eq_rotateActive (hfiles : 0 < options.maxFiles) (files : Files) :
    ∃ files', rotateLoop zlib options o options.maxFiles files =
        rotateActive zlib options o files' ∧
      files' options.path = files options.path ∧
      files' (options.rotatedPath zlib 1) = o.oldNewest zlib options files := by
  rw [Outcomes.oldNewest]
  by_cases hone : options.maxFiles = 1
  · rw [hone, if_pos rfl]
    refine ⟨files.remove o.removes (options.rotatedPath zlib 1), ?_, ?_, ?_⟩
    · rw [rotateLoop, rotateLoop, rotateStep, if_neg (Nat.lt_irrefl 1), if_pos hone.symm]
    · exact Files.remove_of_ne rotatedPath_one_ne.symm
    · cases o.removes with
      | false => rfl
      | true => exact Files.remove_self
  · obtain ⟨i, hi⟩ : ∃ i, options.maxFiles = i + 2 := ⟨options.maxFiles - 2, by omega⟩
    obtain ⟨files', hloop, hpath, hnewest⟩ :=
      @rotateLoop_older options zlib o i hi.ge files
    refine ⟨files', ?_, hpath, ?_⟩
    · rw [hi]
      exact hloop
    · rw [hnewest, if_neg hone]

/-- The last round, of an active file that is there. -/
theorem rotateActive_eq {files : Files} {text : Bytes} (htext : files options.path = some text) :
    rotateActive zlib options o files =
      if o.finds 1 then
        match o.archive zlib options text with
        | some compressed => files.overwrite o.opensTarget (o.writes compressed.length)
            (options.rotatedPath zlib 1) compressed
        | none => files.rename (o.renames 1) options.path (options.rotatedPath zlib 1)
      else files := by
  have hcontains : files.contains (o.finds 1) options.path = o.finds 1 := by
    rw [Files.contains, htext]
    exact Bool.and_true _
  rw [Outcomes.archive.eq_def, rotateActive.eq_def]
  dsimp only
  rw [hcontains, htext, Option.getD_some]
  cases zlib with
  | none => rfl
  | some z =>
    cases options.compressRotated with
    | false => rfl
    | true =>
      cases o.sizes with
      | false => rfl
      | true =>
        dsimp only
        rw [if_pos rfl, if_pos rfl]
        obtain ⟨compressed, ok⟩ := gzipCompress z (Files.read (o.reads text.length) text) []
        cases ok <;> rfl

/-! ## Archives -/

theorem exists_of_archive {text compressed : Bytes}
    (h : o.archive zlib options text = some compressed) :
    ∃ z written, zlib = some z ∧ compressed = written.flatten ∧
      (z.deflate (15 + 16)).rounds ((Files.read (o.reads text.length) text).take
        (text.length % 2 ^ 32)) = some written := by
  rw [Outcomes.archive.eq_def] at h
  cases zlib with
  | none => cases h
  | some z =>
    cases hcompress : options.compressRotated with
    | false =>
      rw [hcompress] at h
      cases h
    | true =>
      rw [hcompress] at h
      cases hsizes : o.sizes with
      | false =>
        rw [hsizes] at h
        cases h
      | true =>
        rw [hsizes] at h
        dsimp only at h
        rw [if_pos rfl, gzipCompress, compressImpl_nil, Files.length_read] at h
        cases hrounds : (z.deflate (15 + 16)).rounds ((Files.read (o.reads text.length) text).take
            (text.length % 2 ^ 32)) with
        | none =>
          rw [hrounds] at h
          cases h
        | some written =>
          rw [hrounds] at h
          exact ⟨z, written, rfl, (Option.some.inj h).symm, hrounds⟩

/-- The part of an archive that was written holds the text if it is the whole archive of all
bytes, or by coincidence. -/
theorem holdsText_archive {text compressed : Bytes} {n : ℕ}
    (h : o.archive zlib options text = some compressed) :
    HoldsText zlib text (compressed.take n) ↔
      (compressed.length ≤ n ∧ Files.read (o.reads text.length) text = text ∧
        text.length < 2 ^ 32) ∨ compressed.take n = text := by
  obtain ⟨z, written, rfl, rfl, hrounds⟩ := exists_of_archive h
  constructor
  · rintro (heq | ⟨z', hz, hinflate⟩)
    · exact .inr heq
    · obtain rfl := Option.some.inj hz
      rcases Nat.lt_or_ge n written.flatten.length with hlt | hle
      · rw [(z.deflate (15 + 16)).inflate_take hrounds n hlt] at hinflate
        cases hinflate
      · rw [List.take_of_length_le hle, (z.deflate (15 + 16)).inflate_flatten hrounds,
          Option.some.injEq] at hinflate
        have hlength := congrArg List.length hinflate
        rw [List.length_take, Files.length_read] at hlength
        have hlt : text.length < 2 ^ 32 := by omega
        refine .inl ⟨hle, ?_, hlt⟩
        rwa [Nat.mod_eq_of_lt hlt, List.take_of_length_le (Files.length_read ..).le] at hinflate
  · rintro (⟨hle, hread, hlt⟩ | heq)
    · refine .inr ⟨z, rfl, ?_⟩
      rw [hread, Nat.mod_eq_of_lt hlt, List.take_length] at hrounds
      rw [List.take_of_length_le hle]
      exact (z.deflate (15 + 16)).inflate_flatten hrounds
    · exact .inl heq

/-! ## The loop -/

/-- The loop leaves the text in its place or brings it to the newest rotated file, and that
file holds the text if it was brought there or by coincidence. -/
theorem rotateLoop_survives (hfiles : 0 < options.maxFiles) {files : Files} {text : Bytes}
    (htext : files options.path = some text) :
    let files' := rotateLoop zlib options o options.maxFiles files
    Survives zlib options files' text ∧
      ((∃ file, files' (options.rotatedPath zlib 1) = some file ∧ HoldsText zlib text file) ↔
        o.Moves zlib options text ∨ o.Coincides zlib options files text) := by
  obtain ⟨files', hloop, hpath, hnewest⟩ := @rotateLoop_eq_rotateActive options zlib o hfiles files
  have hne : options.path ≠ options.rotatedPath zlib 1 := rotatedPath_one_ne.symm
  rw [htext] at hpath
  dsimp only
  rw [hloop, rotateActive_eq hpath, Outcomes.Moves, Outcomes.Coincides.eq_def]
  cases hfinds : o.finds 1 with
  | false =>
    -- the last round does nothing
    rw [if_neg Bool.false_ne_true, hnewest, Bool.false_and,
      or_iff_right fun h => Bool.false_ne_true h.1]
    refine ⟨.inl hpath, ?_⟩
    cases o.archive zlib options text <;> rfl
  | true =>
    rw [if_pos rfl, Bool.true_and, eq_self, true_and]
    cases harchive : o.archive zlib options text with
    | none =>
      dsimp only
      cases o.renames 1 with
      | false =>
        rw [Files.rename_false, hnewest, or_iff_right Bool.false_ne_true]
        exact ⟨.inl hpath, Iff.rfl⟩
      | true =>
        have hmoved : files'.rename true options.path (options.rotatedPath zlib 1)
            (options.rotatedPath zlib 1) = some text := Files.rename_target hpath
        rw [hmoved]
        have hholds : ∃ file, some text = some file ∧ HoldsText zlib text file :=
          ⟨text, rfl, .inl rfl⟩
        exact ⟨.inr ⟨text, hmoved, .inl rfl⟩, iff_of_true hholds (.inl rfl)⟩
    | some compressed =>
      refine ⟨.inl ((Files.overwrite_of_ne hne ..).trans hpath), ?_⟩
      cases o.opensTarget with
      | false =>
        rw [or_iff_right fun h => Bool.false_ne_true h.1]
        exact hnewest ▸ Iff.rfl
      | true =>
        dsimp only
        rw [Files.overwrite_self, eq_self, true_and, ← holdsText_archive harchive]
        constructor
        · rintro ⟨file, heq, hholds⟩
          obtain rfl := Option.some.inj heq
          exact hholds
        · exact fun hholds => ⟨_, rfl, hholds⟩

/-! ## The rotation -/

/-- **When a rotation keeps the active file.** After `rotate_if_needed` the text that the
active file held is in `path` or in the newest rotated file if and only if there was nothing
to rotate, the file could not be opened again, it was empty, the operations of the last round
succeeded, or what that round left at the newest rotated path is the same text by
coincidence. -/
theorem survives_iff (zlib : Option Zlib) (o : Outcomes) (s : FileSink)
    (hfiles : 0 < s.options.maxFiles) {text : Bytes} (htext : s.files s.options.path = some text) :
    Survives zlib s.options (s.rotateIfNeeded zlib o).1.files text ↔
      s.mustRotate o = false ∨ o.reopens = false ∨ text = [] ∨ o.Moves zlib s.options text ∨
        o.Coincides zlib s.options s.files text := by
  obtain ⟨hloop, hnewest⟩ := @rotateLoop_survives s.options zlib o hfiles s.files text htext
  rw [rotateIfNeeded]
  cases hmust : s.mustRotate o with
  | false =>
    rw [if_neg Bool.false_ne_true]
    exact iff_of_true (.inl htext) (.inl rfl)
  | true =>
    rw [if_pos rfl, or_iff_right Bool.false_ne_true.symm, openFile]
    cases hreopens : o.reopens with
    | false =>
      rw [if_neg Bool.false_ne_true]
      exact iff_of_true hloop (.inl rfl)
    | true =>
      rw [if_pos rfl, or_iff_right Bool.false_ne_true.symm, ← hnewest, Survives]
      dsimp only
      rw [if_neg Bool.false_ne_true, Files.truncate_self, Option.some.injEq,
        Files.truncate_of_ne rotatedPath_one_ne, eq_comm]

/-- A sink whose active file is due for rotation. -/
def dueSink : FileSink := ⟨tinyOptions, true, gapFiles⟩

/-- No file can be renamed. -/
def failedRenames : Outcomes := { Outcomes.success with renames := fun _ => false }

/-- A rotation that succeeds, and one whose renames fail. -/
theorem survives_iff_dueSink :
    (Survives none tinyOptions (dueSink.rotateIfNeeded none .success).1.files (ascii "start") ↔
      dueSink.mustRotate .success = false ∨ Outcomes.success.reopens = false ∨
        ascii "start" = [] ∨ Outcomes.success.Moves none tinyOptions (ascii "start") ∨
        Outcomes.success.Coincides none tinyOptions gapFiles (ascii "start")) ∧
    (Survives none tinyOptions (dueSink.rotateIfNeeded none failedRenames).1.files
        (ascii "start") ↔
      dueSink.mustRotate failedRenames = false ∨ failedRenames.reopens = false ∨
        ascii "start" = [] ∨ failedRenames.Moves none tinyOptions (ascii "start") ∨
        failedRenames.Coincides none tinyOptions gapFiles (ascii "start")) :=
  ⟨survives_iff none .success dueSink (by decide) (by decide),
    survives_iff none failedRenames dueSink (by decide) (by decide)⟩

/-- A failed rename of the active file, after which it is truncated. -/
theorem not_survives_failedRenames : dueSink.files dueSink.options.path = some (ascii "start") ∧
    ¬Survives none dueSink.options (dueSink.rotateIfNeeded none failedRenames).1.files
      (ascii "start") := by
  refine ⟨by decide, ?_⟩
  rintro (hpath | ⟨file, hnewest, -⟩)
  · exact absurd hpath (by decide)
  · have hnone : (dueSink.rotateIfNeeded none failedRenames).1.files
        (dueSink.options.rotatedPath none 1) = none := by decide
    rw [hnone] at hnewest
    cases hnewest

end FileSink

end Logspine
