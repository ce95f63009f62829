import Logspine.RotationFailures

/-!
# Rotation with compression

With `compress_rotated`, `path.i.gz` stands for the `path.i` of a sink without it: it is an
archive of the same text, or the text itself when `gzip_compress` has failed. Both sinks rotate
at the same calls and have the same active file (`compression_mirrors`).
-/

namespace Logspine

variable {D : Type} {options : FileSinkOptions} {zlib : Option Zlib}

/-- The options with `compress_rotated` set or cleared. -/
def FileSinkOptions.compressing (options : FileSinkOptions) (compress : Bool) : FileSinkOptions :=
  { options with compressRotated := compress }

/-- The files of a sink that compresses stand for those of a sink that does not: the active files
are the same, and each rotated file holds the text of the plain one. -/
structure Mirrors (zlib : Option Zlib) (options : FileSinkOptions) (plain files : Files) :
    Prop where
  active : files options.path = plain options.path
  rotated : ∀ k < options.maxFiles, Option.Rel (HoldsText zlib)
    (plain ((options.compressing false).rotatedPath zlib (k + 1)))
    (files ((options.compressing true).rotatedPath zlib (k + 1)))

/-- The active files of both sinks are replaced. -/
theorem Mirrors.update {plain files : Files}
    (hrotated : ∀ k < options.maxFiles, Option.Rel (HoldsText zlib)
      (plain ((options.compressing false).rotatedPath zlib (k + 1)))
      (files ((options.compressing true).rotatedPath zlib (k + 1)))) (active : Option Bytes) :
    Mirrors zlib options (Function.update plain options.path active)
      (Function.update files options.path active) := by
  refine ⟨by rw [Function.update_self, Function.update_self], fun k hk => ?_⟩
  have hne : ∀ compress, (options.compressing compress).rotatedPath zlib (k + 1) ≠ options.path :=
    fun compress => @slotPath_succ_ne (options.compressing compress) zlib k
  rw [Function.update_of_ne (hne false), Function.update_of_ne (hne true)]
  exact hrotated k hk

theorem Mirrors.append {plain files : Files} (h : Mirrors zlib options plain files)
    (text : Bytes) :
    Mirrors zlib options (plain.append options.path text) (files.append options.path text) := by
  rw [Files.append, Files.append, h.active]
  exact .update h.rotated _

theorem Mirrors.truncate {plain files : Files} (h : Mirrors zlib options plain files) :
    Mirrors zlib options (plain.truncate options.path) (files.truncate options.path) :=
  .update h.rotated _

namespace FileSink

/-! ## The loop -/

theorem read_length (text : Bytes) : Files.read text.length text = text := by
  rw [Files.read, List.take_length, Nat.sub_self]
  exact List.append_nil _

theorem moves_success {text : Bytes} (hlt : text.length < 2 ^ 32) :
    Outcomes.success.Moves zlib options text := by
  refine ⟨rfl, ?_⟩
  cases Outcomes.success.archive zlib options text with
  | none => exact rfl
  | some compressed => exact ⟨rfl, le_rfl, read_length text, hlt⟩

/-- Before the last round, every rotated file has been moved to the next older path. -/
theorem rotateLoop_rotated {i : ℕ} {files : Files}
    (htarget : i + 1 = options.maxFiles ∨ files (options.slotPath zlib (i + 1)) = none) :
    ∃ files', rotateLoop zlib options .success (i + 1) files =
        rotateActive zlib options .success files' ∧
      files' options.path = files options.path ∧
      (∀ k < i, files' (options.slotPath zlib (k + 2)) = files (options.slotPath zlib (k + 1))) ∧
      ∀ k > i + 1, files' (options.slotPath zlib k) = files (options.slotPath zlib k) := by
  induction i generalizing files with
  | zero =>
    refine ⟨if 1 = options.maxFiles then
      files.remove true (options.rotatedPath zlib 1) else files, ?_, ?_, nofun, fun k hk => ?_⟩
    · rw [rotateLoop, rotateLoop, rotateStep, if_neg (Nat.lt_irrefl 1)]
      rfl
    · split
      case isTrue => exact Files.remove_of_ne rotatedPath_one_ne.symm
      case isFalse => rfl
    · split
      case isTrue => exact Files.remove_of_ne (slotPath_ne (k := 1) (Nat.ne_of_gt hk))
      case isFalse => rfl
  | succ i ih =>
    obtain ⟨hmoved, hnone, hother⟩ :=
      rotateStep_success (fun h => absurd h (Nat.succ_ne_zero i)) htarget
    obtain ⟨files', hloop, hpath, hyounger, holder⟩ := ih (.inr hnone)
    refine ⟨files', hloop, hpath.trans ?_, fun k hk => ?_, fun k hk => ?_⟩
    · exact hother _ (slotPath_ne (j := 0) (by omega)) (slotPath_ne (j := 0) (by omega))
    · rcases Nat.eq_or_lt_of_le (Nat.le_of_lt_succ hk) with rfl | hlt
      · exact (holder _ (by omega)).trans hmoved
      · exact (hyounger k hlt).trans (hother _ (slotPath_ne (by omega)) (slotPath_ne (by omega)))
    · exact (holder k (by omega)).trans
        (hother _ (slotPath_ne (by omega)) (slotPath_ne (by omega)))

/-- The loop leaves a file that holds the active text at the newest rotated path, and moves every
rotated file to the next older one. -/
theorem rotateLoop_holds (hfiles : 0 < options.maxFiles) {files : Files} {text : Bytes}
    (htext : files options.path = some text) (hlt : text.length < 2 ^ 32) :
    let files' := rotateLoop zlib options .success options.maxFiles files
    (∃ file, files' (options.rotatedPath zlib 1) = some file ∧ HoldsText zlib text file) ∧
      ∀ k, k + 1 < options.maxFiles →
        files' (options.rotatedPath zlib (k + 2)) = files (options.rotatedPath zlib (k + 1)) := by
  refine ⟨(rotateLoop_survives hfiles htext).2.mpr (.inl (moves_success hlt)), fun k hk => ?_⟩
  obtain ⟨i, hi⟩ := Nat.exists_eq_succ_of_ne_zero hfiles.ne'
  obtain ⟨files', hloop, hpath, hyounger, -⟩ :=
    @rotateLoop_rotated options zlib i files (.inl hi.symm)
  have hold : files' (options.rotatedPath zlib (k + 2)) =
      files (options.rotatedPath zlib (k + 1)) := hyounger k (by omega)
  have hactive : options.rotatedPath zlib (k + 2) ≠ options.path := slotPath_succ_ne (k + 1)
  have hnewest : options.rotatedPath zlib (k + 2) ≠ options.rotatedPath zlib 1 :=
    slotPath_ne (j := k + 2) (k := 1) (by omega)
  have hfinds : Outcomes.success.finds 1 = true := rfl
  rw [hi, hloop, rotateActive_eq (hpath.trans htext), if_pos hfinds, ← hold]
  cases Outcomes.success.archive zlib options text with
  | none => exact Files.rename_of_ne hactive hnewest
  | some compressed => exact Files.overwrite_of_ne hnewest ..

/-- A rotation of both sinks, before they open their files again. -/
theorem rotateLoop_mirrors {plain files : Files} (h : Mirrors zlib options plain files)
    {text : Bytes} (htext : files options.path = some text) (hlt : text.length < 2 ^ 32) :
    ∀ k < options.maxFiles, Option.Rel (HoldsText zlib)
      (rotateLoop zlib (options.compressing false) .success options.maxFiles plain
        ((options.compressing false).rotatedPath zlib (k + 1)))
      (rotateLoop zlib (options.compressing true) .success options.maxFiles files
        ((options.compressing true).rotatedPath zlib (k + 1))) := by
  intro k hk
  obtain ⟨hplain, -⟩ := @rotateLoop_success (options.compressing false) zlib rfl _ plain (.inl rfl)
  obtain ⟨hnewest, holder⟩ := @rotateLoop_holds (options.compressing true) zlib
    (Nat.zero_lt_of_lt hk) files text htext hlt
  have hmoved := hplain k hk
  cases k with
  | zero =>
    obtain ⟨file, hfile, hholds⟩ := hnewest
    have hactive : plain options.path = some text := h.active.symm.trans htext
    refine (congrArg₂ (Option.Rel (HoldsText zlib)) ?_ hfile).mpr (.some hholds)
    exact hmoved.trans hactive
  | succ k =>
    refine (congrArg₂ (Option.Rel (HoldsText zlib)) hmoved (holder k hk)).mpr ?_
    exact h.rotated k (Nat.lt_of_succ_lt hk)

/-! ## Runs -/

/-- A sink that does not compress and one that does, after the same calls. -/
structure Mirrored (zlib : Option Zlib) (options : FileSinkOptions) (p s : FileSink) : Prop where
  plainOpened : p.isOpen = true
  opened : s.isOpen = true
  sameOptions : ∃ append, p.options = { options.compressing false with append := append } ∧
    s.options = { options.compressing true with append := append }
  files : Mirrors zlib options p.files s.files
  active : ∃ text, p.files options.path = some text

theorem Mirrored.construct {plain files : Files} (h : Mirrors zlib options plain files) :
    Mirrored zlib options (construct (options.compressing false) plain)
      (construct (options.compressing true) files) := by
  obtain ⟨path, format, append, maxFileSize, maxFiles, compressRotated⟩ := options
  cases append with
  | false => exact ⟨rfl, rfl, ⟨false, rfl, rfl⟩, h.truncate, _, Files.truncate_self⟩
  | true => exact ⟨rfl, rfl, ⟨true, rfl, rfl⟩, h.append [], _, Files.append_self []⟩

theorem Mirrored.insert {p s : FileSink} (h : Mirrored zlib options p s) (text : Bytes) :
    Mirrored zlib options (p.insert text).1 (s.insert text).1 ∧
      (p.insert text).2 = (s.insert text).2 := by
  obtain ⟨hplain, hopen, ⟨append, hpoptions, hoptions⟩, hfiles, -⟩ := h
  rw [FileSink.insert, FileSink.insert, if_pos hplain, if_pos hopen, hpoptions, hoptions]
  exact ⟨⟨hplain, hopen, ⟨append, rfl, rfl⟩, hfiles.append text, _, Files.append_self text⟩, rfl⟩

/-- The active file is smaller than what `compress_impl` can take. -/
def Fits (options : FileSinkOptions) (s : FileSink) : Prop :=
  ∀ text, s.files options.path = some text → text.length < 2 ^ 32

/-- Both sinks rotate, or neither does. -/
theorem Mirrored.rotateIfNeeded {p s : FileSink} (h : Mirrored zlib options p s)
    (hfits : Fits options p) :
    Mirrored zlib options (p.rotateIfNeeded zlib .success).1 (s.rotateIfNeeded zlib .success).1 ∧
      (p.rotateIfNeeded zlib .success).2 = true ∧
      (s.rotateIfNeeded zlib .success).2 = true := by
  obtain ⟨hplain, hopen, ⟨append, hpoptions, hoptions⟩, hfiles, text, htext⟩ := id h
  have hactive : s.files options.path = some text := hfiles.active.trans htext
  have hpmust := mustRotate_success hplain hpoptions htext
  have hmust := mustRotate_success hopen hoptions hactive
  rw [FileSink.rotateIfNeeded, FileSink.rotateIfNeeded]
  by_cases hdue : 0 < options.maxFileSize ∧ options.maxFileSize ≤ text.length
  · rw [if_pos (hpmust.mpr hdue), if_pos (hmust.mpr hdue), hpoptions, hoptions]
    have hmirrors : Mirrors zlib { options with append := append } p.files s.files :=
      ⟨hfiles.active, hfiles.rotated⟩
    have hloop := rotateLoop_mirrors hmirrors hactive (hfits text htext)
    exact ⟨⟨rfl, rfl, ⟨false, rfl, rfl⟩, @Mirrors.update options _ _ _ hloop (some []), [],
      Files.truncate_self⟩, rfl, rfl⟩
  · rw [if_neg fun hrotates => hdue (hpmust.mp hrotates),
      if_neg fun hrotates => hdue (hmust.mp hrotates)]
    exact ⟨h, rfl, rfl⟩

theorem Mirrored.write (fmt : DoubleFormat D) (sink : SinkBase D) {p s : FileSink}
    (h : Mirrored zlib options p s) (hfits : Fits options p) (event : LogEvent D) :
    Mirrored zlib options (p.write zlib fmt sink .success event).1
        (s.write zlib fmt sink .success event).1 ∧
      (p.write zlib fmt sink .success event).2 = (s.write zlib fmt sink .success event).2 := by
  rw [FileSink.write, FileSink.write]
  by_cases hlog : sink.shouldLog event = true
  · rw [if_pos hlog, if_pos hlog]
    obtain ⟨hmirrored, hpreturns, hreturns⟩ := h.rotateIfNeeded hfits
    generalize p.rotateIfNeeded zlib .success = rp at hmirrored hpreturns
    generalize s.rotateIfNeeded zlib .success = rs at hmirrored hreturns
    obtain ⟨p', returned⟩ := rp
    obtain rfl : returned = true := hpreturns
    obtain ⟨s', returned⟩ := rs
    obtain rfl : returned = true := hreturns
    obtain ⟨append, hpoptions, hoptions⟩ := hmirrored.sameOptions
    have hpformat : p'.options.format = options.format := by rw [hpoptions]; rfl
    have hformat : s'.options.format = options.format := by rw [hoptions]; rfl
    dsimp only
    rw [hpformat, hformat]
    cases record fmt sink options.format event with
    | none => exact ⟨hmirrored, rfl⟩
    | some text => exact hmirrored.insert text
  · rw [if_neg hlog, if_neg hlog]
    exact ⟨h, rfl⟩

theorem Mirrored.writes (fmt : DoubleFormat D) (sink : SinkBase D) {p s : FileSink}
    (h : Mirrored zlib options p s) {events : List (LogEvent D)}
    (hfits : ∀ before event after, events = before ++ event :: after →
      Fits options (writes zlib fmt sink p before)) :
    Mirrored zlib options (writes zlib fmt sink p events) (writes zlib fmt sink s events) := by
  induction events generalizing p s with
  | nil => exact h
  | cons event events ih =>
    refine ih (h.write fmt sink (hfits [] event events rfl) event).1 ?_
    rintro before next after rfl
    exact hfits (event :: before) next after rfl

end FileSink

end Logspine
