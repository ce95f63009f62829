import Mathlib.Data.List.Induction
import Logspine.FileSink

/-!
# Rotation

The files of a `file_sink` are a window on a growing list of files, the oldest first:
`path.N`, ..., `path.1`, `path`. A rotation that succeeds moves the window one file on
(`slots_rotateLoop`), and a record goes to the last file. So what a run has lost is a
number of whole files at the oldest end.
-/

namespace Logspine

variable {D : Type}

/-! ## The window -/

/-- The paths of a sink by age: the active file is `0`. -/
def FileSinkOptions.slotPath (options : FileSinkOptions) (zlib : Option Zlib) : ℕ → Bytes
  | 0 => options.path
  | k + 1 => options.rotatedPath zlib (k + 1)

/-- The files of a sink, the oldest first. -/
def FileSinkOptions.slots (options : FileSinkOptions) (zlib : Option Zlib) (files : Files) :
    List (Option Bytes) :=
  (List.range (options.maxFiles + 1)).reverse.map fun k => files (options.slotPath zlib k)

/-- The concatenation of files, absent ones empty. -/
def contents (slots : List (Option Bytes)) : Bytes := slots.flatMap fun file => file.getD []

theorem contents_append (slots slots' : List (Option Bytes)) :
    contents (slots ++ slots') = contents slots ++ contents slots' := List.flatMap_append ..

theorem contents_singleton (file : Option Bytes) : contents [file] = file.getD [] :=
  List.append_nil _

theorem contents_map_flatten (blocks : List (List Bytes)) :
    contents (blocks.map fun blocks => some blocks.flatten) = blocks.flatten.flatten := by
  rw [contents, List.flatMap_map, List.flatten_flatten]
  rfl

variable {options : FileSinkOptions} {zlib : Option Zlib}

theorem slotPath_succ_ne (k : ℕ) : options.slotPath zlib (k + 1) ≠ options.path := by
  intro h
  have hlen := congrArg List.length h
  rw [FileSinkOptions.slotPath, FileSinkOptions.rotatedPath, List.length_append,
    List.length_append, List.length_append, show (ascii ".").length = 1 from rfl] at hlen
  omega

theorem slotPath_injective : Function.Injective (options.slotPath zlib) := by
  intro j k h
  cases j with
  | zero =>
    cases k with
    | zero => rfl
    | succ k => exact absurd h.symm (slotPath_succ_ne k)
  | succ j =>
    cases k with
    | zero => exact absurd h (slotPath_succ_ne j)
    | succ k =>
      rw [FileSinkOptions.slotPath, FileSinkOptions.slotPath, FileSinkOptions.rotatedPath,
        FileSinkOptions.rotatedPath, List.append_left_inj, List.append_right_inj] at h
      exact natural_injective h

theorem slots_eq_concat (files : Files) :
    options.slots zlib files =
      ((List.range options.maxFiles).reverse.map fun k => files (options.slotPath zlib (k + 1))) ++
        [files options.path] := by
  rw [FileSinkOptions.slots, List.range_succ_eq_map, List.reverse_cons, List.map_append,
    ← List.map_reverse, List.map_map]
  rfl

theorem slots_eq_cons (files : Files) :
    options.slots zlib files =
      files (options.slotPath zlib options.maxFiles) ::
        (List.range options.maxFiles).reverse.map fun k => files (options.slotPath zlib k) := by
  rw [FileSinkOptions.slots, List.range_succ, List.reverse_append]
  rfl

/-! ## A rotation -/

namespace FileSink

theorem rotateActive_plain (hplain : options.compressRotated = false) (o : Outcomes)
    (files : Files) : rotateActive zlib options o files =
      if files.contains (o.finds 1) options.path then
        files.rename (o.renames 1) options.path (options.rotatedPath zlib 1) else files := by
  simp only [rotateActive, hplain]

/-- A round moves one file to the next older path, if nothing is there. -/
theorem rotateStep_success {i : ℕ} (hplain : i = 0 → options.compressRotated = false)
    {files : Files}
    (htarget : i + 1 = options.maxFiles ∨ files (options.slotPath zlib (i + 1)) = none) :
    let files' := rotateStep zlib options .success (i + 1) files
    files' (options.slotPath zlib (i + 1)) = files (options.slotPath zlib i) ∧
      files' (options.slotPath zlib i) = none ∧
      ∀ path, path ≠ options.slotPath zlib (i + 1) → path ≠ options.slotPath zlib i →
        files' path = files path := by
  have hne : options.slotPath zlib i ≠ options.slotPath zlib (i + 1) := fun h =>
    absurd (slotPath_injective h) (Nat.succ_ne_self i).symm
  -- the file system after the removal, at `i = max_files`, of what the target holds
  obtain ⟨cleared, hcleared, hnone, hrest⟩ : ∃ cleared : Files,
      rotateStep zlib options .success (i + 1) files =
        cleared.rename true (options.slotPath zlib i) (options.slotPath zlib (i + 1)) ∧
      cleared (options.slotPath zlib (i + 1)) = none ∧
      ∀ path, path ≠ options.slotPath zlib (i + 1) → cleared path = files path := by
    refine ⟨if i + 1 = options.maxFiles then
      files.remove true (options.slotPath zlib (i + 1)) else files, ?_, ?_, ?_⟩
    · cases i with
      | zero =>
        rw [rotateStep, if_neg (Nat.lt_irrefl 1), rotateActive_plain (hplain rfl)]
        exact Files.ite_contains_rename ..
      | succ i =>
        rw [rotateStep, if_pos (by omega), rotateOlder]
        exact Files.ite_contains_rename ..
    · split
      case isTrue => exact Files.remove_self
      case isFalse hlast => exact htarget.resolve_left hlast
    · intro path hpath
      split
      case isTrue => exact Files.remove_of_ne hpath
      case isFalse => rfl
  dsimp only
  rw [hcleared]
  refine ⟨?_, Files.rename_source hne, fun path ht hs => ?_⟩
  · rw [Files.rename_target_of_none hnone, hrest _ hne]
  · rw [Files.rename_of_ne hs ht, hrest path ht]

/-- The loop moves every file to the next older path, the oldest out. -/
theorem rotateLoop_success (hplain : options.compressRotated = false) {i : ℕ} {files : Files}
    (htarget : i = options.maxFiles ∨ files (options.slotPath zlib i) = none) :
    let files' := rotateLoop zlib options .success i files
    (∀ k < i, files' (options.slotPath zlib (k + 1)) = files (options.slotPath zlib k)) ∧
      ∀ path, (∀ k ≤ i, path ≠ options.slotPath zlib k) → files' path = files path := by
  induction i generalizing files with
  | zero => exact ⟨nofun, fun _ _ => rfl⟩
  | succ i ih =>
    obtain ⟨hmoved, hnone, hother⟩ := rotateStep_success (fun _ => hplain) htarget
    obtain ⟨hyounger, hrest⟩ := ih (.inr hnone)
    have hne : ∀ {j k : ℕ}, j ≠ k → options.slotPath zlib j ≠ options.slotPath zlib k :=
      fun h heq => h (slotPath_injective heq)
    refine ⟨fun k hk => ?_, fun path hpath => ?_⟩
    · rcases Nat.eq_or_lt_of_le (Nat.le_of_lt_succ hk) with rfl | hlt
      · exact (hrest _ fun j hj => hne (by omega)).trans hmoved
      · exact (hyounger k hlt).trans (hother _ (hne (by omega)) (hne (by omega)))
    · exact (hrest path fun k hk => hpath k (by omega)).trans
        (hother path (hpath _ le_rfl) (hpath i (by omega)))

/-- **A rotation moves the window one file on.** -/
theorem slots_rotateLoop (hplain : options.compressRotated = false) (files : Files) :
    options.slots zlib
        ((rotateLoop zlib options .success options.maxFiles files).truncate options.path) =
      (options.slots zlib files).tail ++ [some []] := by
  obtain ⟨hmoved, -⟩ := @rotateLoop_success options zlib hplain _ files (.inl rfl)
  rw [slots_eq_concat, slots_eq_cons, Files.truncate_self, List.tail_cons]
  congr 1
  refine List.map_congr_left fun k hk => ?_
  rw [Files.truncate_of_ne (slotPath_succ_ne k)]
  exact hmoved k (List.mem_range.mp (List.mem_reverse.mp hk))

/-! ## Runs -/

/-- What `write` streams for an event, if it gets that far. -/
def streamed (fmt : DoubleFormat D) (sink : SinkBase D) (format : SinkFormat)
    (event : LogEvent D) : Option Bytes :=
  if sink.shouldLog event then record fmt sink format event else none

/-- The files of a sink with these options have been `files` at first, and took `records` since:
`rotated` and `last` are the blocks of the active files since then, and the window holds what is
left when `removed` has gone. -/
structure Keeps (zlib : Option Zlib) (options : FileSinkOptions) (files : Files)
    (records : List Bytes) (s : FileSink) : Prop where
  opened : s.isOpen = true
  sameOptions : ∃ append, s.options = { options with append := append }
  window : ∃ (rotated : List (List Bytes)) (last : List Bytes) (removed : List (Option Bytes)),
    (rotated ++ [last]).flatten = (files options.path).getD [] :: records ∧
      removed ++ options.slots zlib s.files =
        (options.slots zlib files).dropLast ++
          (rotated ++ [last]).map (fun blocks => some blocks.flatten) ∧
      ∀ blocks ∈ rotated, 0 < options.maxFileSize ∧ options.maxFileSize ≤ blocks.flatten.length
  others : ∀ path, (∀ k ≤ options.maxFiles, path ≠ options.slotPath zlib k) →
    s.files path = files path

theorem slots_dropLast (files : Files) : (options.slots zlib files).dropLast =
    (List.range options.maxFiles).reverse.map fun k => files (options.slotPath zlib (k + 1)) := by
  rw [slots_eq_concat, List.dropLast_concat]

theorem Keeps.construct {append : Bool} {files : Files}
    (happend : append = true ∨ files options.path = none) :
    Keeps zlib options files [] (construct { options with append := append } files) := by
  obtain ⟨hactive, hothers⟩ : (FileSink.construct { options with append := append } files).files
        options.path = some ((files options.path).getD []) ∧
      ∀ path ≠ options.path,
        (FileSink.construct { options with append := append } files).files path = files path := by
    cases append with
    | true =>
      refine ⟨(Files.append_self []).trans ?_, fun path hpath => Files.append_of_ne hpath []⟩
      exact congrArg some (List.append_nil _)
    | false =>
      have hempty : files options.path = none := happend.resolve_left Bool.false_ne_true
      refine ⟨Files.truncate_self.trans ?_, fun path hpath => Files.truncate_of_ne hpath⟩
      rw [hempty]
      rfl
  refine ⟨?_, ⟨append, ?_⟩, ⟨[], [(files options.path).getD []], [], rfl, ?_, nofun⟩, ?_⟩
  · cases append <;> rfl
  · cases append <;> rfl
  · rw [slots_dropLast, List.nil_append, slots_eq_concat]
    congr 1
    · exact List.map_congr_left fun k _ => hothers _ (slotPath_succ_ne k)
    · rw [hactive]
      exact congrArg (fun text => [some text]) (List.append_nil _).symm
  · exact fun path hpath => hothers path (hpath 0 (Nat.zero_le _))

/-- The active file holds the last blocks. -/
theorem active_of_window {files : Files} {older removed : List (Option Bytes)}
    {rotated : List (List Bytes)} {last : List Bytes}
    (hwindow : removed ++ options.slots zlib files =
      older ++ (rotated ++ [last]).map fun blocks => some blocks.flatten) :
    files options.path = some last.flatten ∧
      removed ++ (options.slots zlib files).dropLast =
        older ++ rotated.map fun blocks => some blocks.flatten := by
  rw [slots_dropLast]
  rw [slots_eq_concat, List.map_append, ← List.append_assoc, ← List.append_assoc] at hwindow
  obtain ⟨hinit, hlast⟩ := List.append_inj' hwindow rfl
  exact ⟨(List.cons.inj hlast).1, hinit⟩

/-- One more block for the active file. -/
theorem Keeps.insert {files : Files} {records : List Bytes} {s : FileSink}
    (h : Keeps zlib options files records s) (text : Bytes) :
    Keeps zlib options files (records ++ [text]) (s.insert text).1 := by
  obtain ⟨hopen, ⟨append, hoptions⟩, ⟨rotated, last, removed, hblocks, hwindow, hsize⟩, hothers⟩ :=
    h
  obtain ⟨hactive, hinit⟩ := active_of_window hwindow
  rw [FileSink.insert, if_pos hopen, hoptions]
  refine ⟨hopen, ⟨append, rfl⟩, ⟨rotated, last ++ [text], removed, ?_, ?_, hsize⟩, ?_⟩
  · rw [List.flatten_append, List.flatten_singleton] at hblocks ⊢
    rw [← List.append_assoc, hblocks, List.cons_append]
  · rw [slots_dropLast] at hinit
    change removed ++ options.slots zlib (s.files.append options.path text) = _
    rw [slots_eq_concat, Files.append_self, hactive, List.map_append, ← List.append_assoc,
      ← List.append_assoc, ← hinit]
    refine congrArg₂ _ (congrArg _ (List.map_congr_left fun k _ => ?_)) ?_
    · exact Files.append_of_ne (slotPath_succ_ne k) text
    · rw [Option.getD_some, List.map_singleton, List.flatten_append, List.flatten_singleton]
  · intro path hpath
    exact (Files.append_of_ne (hpath 0 (Nat.zero_le _)) text).trans (hothers path hpath)

theorem mustRotate_success {s : FileSink} (hopen : s.isOpen = true) (hoptions : s.options = options)
    {text : Bytes} (htext : s.files options.path = some text) :
    s.mustRotate .success = true ↔
      0 < options.maxFileSize ∧ options.maxFileSize ≤ text.length := by
  rw [mustRotate, tellp, if_pos hopen, hoptions, htext]
  split
  case isTrue hnever => exact iff_of_false Bool.false_ne_true fun h => h.1.ne' hnever
  case isFalse hlimit =>
    exact decide_eq_true_iff.trans (and_iff_right (Nat.pos_of_ne_zero hlimit)).symm

/-- A rotation leaves an active file that is smaller than the limit. -/
theorem Keeps.rotateIfNeeded (hplain : options.compressRotated = false) {files : Files}
    {records : List Bytes} {s : FileSink} (h : Keeps zlib options files records s) :
    Keeps zlib options files records (s.rotateIfNeeded zlib .success).1 ∧
      (s.rotateIfNeeded zlib .success).2 = true ∧
      ∃ text, (s.rotateIfNeeded zlib .success).1.files options.path = some text ∧
        (0 < options.maxFileSize → text.length < options.maxFileSize) := by
  obtain ⟨hopen, ⟨append, hoptions⟩, ⟨rotated, last, removed, hblocks, hwindow, hsize⟩, hothers⟩ :=
    id h
  obtain ⟨hactive, hinit⟩ := active_of_window hwindow
  have hmust := mustRotate_success hopen hoptions hactive
  dsimp only at hmust
  rw [FileSink.rotateIfNeeded]
  by_cases hdue : 0 < options.maxFileSize ∧ options.maxFileSize ≤ last.flatten.length
  case neg =>
    rw [if_neg fun hrotates => hdue (hmust.mp hrotates)]
    exact ⟨h, rfl, last.flatten, hactive, fun hlimit => not_le.mp fun hle => hdue ⟨hlimit, hle⟩⟩
  case pos =>
    rw [if_pos (hmust.mpr hdue), hoptions]
    refine ⟨⟨rfl, ⟨false, rfl⟩, ⟨rotated ++ [last], [],
      removed ++ (options.slots zlib s.files).take 1, ?_, ?_, ?_⟩, ?_⟩, rfl, [],
      Files.truncate_self, id⟩
    · rw [List.flatten_append, hblocks]
      exact List.append_nil _
    · have hslots := @slots_rotateLoop { options with append := append } zlib hplain s.files
      refine (congrArg _ hslots).trans ?_
      calc removed ++ (options.slots zlib s.files).take 1 ++
            ((options.slots zlib s.files).tail ++ [some []])
          = removed ++ options.slots zlib s.files ++ [some []] := by
            rw [← List.drop_one, List.append_assoc, ← List.append_assoc (List.take 1 _),
              List.take_append_drop, List.append_assoc]
        _ = (options.slots zlib files).dropLast ++
              ((rotated ++ [last]).map (fun blocks => some blocks.flatten) ++
                [[]].map fun blocks => some blocks.flatten) := by
            rw [hwindow, List.append_assoc]
            rfl
        _ = _ := by rw [← List.map_append]
    · intro blocks hmem
      rcases List.mem_append.mp hmem with hmem | hmem
      · exact hsize blocks hmem
      · rw [List.mem_singleton.mp hmem]
        exact hdue
    · intro path hpath
      have hloop := (@rotateLoop_success { options with append := append } zlib hplain _ s.files
        (.inl rfl)).2 path hpath
      exact (Files.truncate_of_ne (hpath 0 (Nat.zero_le _))).trans
        (hloop.trans (hothers path hpath))

theorem Keeps.write (hplain : options.compressRotated = false) (fmt : DoubleFormat D)
    (sink : SinkBase D) {files : Files} {records : List Bytes} {s : FileSink}
    (h : Keeps zlib options files records s) (event : LogEvent D) :
    Keeps zlib options files (records ++ (streamed fmt sink options.format event).toList)
      (s.write zlib fmt sink .success event).1 := by
  rw [FileSink.write, streamed]
  by_cases hlog : sink.shouldLog event = true
  · obtain ⟨hkeeps, hreturns, -⟩ := h.rotateIfNeeded hplain
    have hformat : (s.rotateIfNeeded zlib .success).1.options.format = options.format := by
      obtain ⟨append, heq⟩ := hkeeps.sameOptions
      rw [heq]
    rw [if_pos hlog, if_pos hlog]
    generalize s.rotateIfNeeded zlib .success = r at hkeeps hreturns hformat
    obtain ⟨s', returned⟩ := r
    obtain rfl : returned = true := hreturns
    dsimp only at hformat ⊢
    rw [hformat]
    cases record fmt sink options.format event with
    | none =>
      rw [Option.toList_none, List.append_nil]
      exact hkeeps
    | some text => exact hkeeps.insert text
  · rw [if_neg hlog, if_neg hlog, Option.toList_none, List.append_nil]
    exact h

theorem Keeps.writes (hplain : options.compressRotated = false) (fmt : DoubleFormat D)
    (sink : SinkBase D) {files : Files} {records : List Bytes} {s : FileSink}
    (h : Keeps zlib options files records s) (events : List (LogEvent D)) :
    Keeps zlib options files
      (records ++ events.filterMap (streamed fmt sink options.format))
      (writes zlib fmt sink s events) := by
  induction events generalizing s records with
  | nil =>
    rw [List.filterMap_nil, List.append_nil]
    exact h
  | cons event events ih =>
    have hrest := ih (h.write hplain fmt sink event)
    rw [List.append_assoc] at hrest
    rw [List.filterMap_cons]
    cases hstreamed : streamed fmt sink options.format event with
    | none =>
      rw [hstreamed] at hrest
      exact hrest
    | some text =>
      rw [hstreamed] at hrest
      exact hrest

/-- **Rotation keeps the newest log.** All files that a run has had, the oldest first, are the
ones at its start, the active one of which goes on, and one for each rotation since; each
consists of whole records, and the window holds the last of them. -/
theorem rotation_keeps_newest (zlib : Option Zlib) (fmt : DoubleFormat D) (sink : SinkBase D)
    (options : FileSinkOptions) (hlimit : 0 < options.maxFileSize)
    (hplain : options.compressRotated = false) (files : Files) (events : List (LogEvent D)) :
    let start := construct { options with append := true } files
    let s := writes zlib fmt sink start events
    let records := events.filterMap (streamed fmt sink options.format)
    (∃ (rotated : List (List Bytes)) (last : List Bytes) (removed : List (Option Bytes)),
      (rotated ++ [last]).flatten = (files options.path).getD [] :: records ∧
        removed ++ options.slots zlib s.files =
          (options.slots zlib files).dropLast ++
            (rotated ++ [last]).map (fun blocks => some blocks.flatten) ∧
        contents (options.slots zlib files) ++ records.flatten =
          contents removed ++ contents (options.slots zlib s.files) ∧
        ∀ blocks ∈ rotated, options.maxFileSize ≤ blocks.flatten.length) ∧
    (∀ k > options.maxFiles,
      s.files (options.rotatedPath zlib k) = files (options.rotatedPath zlib k)) ∧
    ∀ before event after, events = before ++ event :: after →
      ∃ text, ((writes zlib fmt sink start before).rotateIfNeeded zlib .success).1.files
          options.path = some text ∧ text.length < options.maxFileSize := by
  dsimp only
  have hkeeps : ∀ events, Keeps zlib options files _ (writes zlib fmt sink _ events) :=
    fun events => (Keeps.construct (.inl rfl)).writes hplain fmt sink events
  obtain ⟨-, -, ⟨rotated, last, removed, hblocks, hwindow, hsize⟩, hothers⟩ := hkeeps events
  refine ⟨⟨rotated, last, removed, hblocks, hwindow, ?_, fun blocks hb => (hsize blocks hb).2⟩,
    fun k hk => ?_, ?_⟩
  · rw [← contents_append, hwindow, contents_append, slots_eq_concat, List.dropLast_concat,
      contents_append, List.append_assoc]
    refine congrArg _ ?_
    rw [contents_map_flatten, hblocks, List.flatten_cons, contents_singleton, List.nil_append]
  · obtain ⟨k, rfl⟩ := Nat.exists_eq_succ_of_ne_zero (Nat.ne_zero_of_lt hk)
    exact hothers (options.slotPath zlib (k + 1)) fun j hj h =>
      absurd (slotPath_injective h) (by omega)
  · rintro before event after -
    obtain ⟨-, -, text, htext, hlt⟩ := (hkeeps before).rotateIfNeeded hplain
    exact ⟨text, htext, hlt hlimit⟩

/-- Options for two rotated files, and a sink that streams the message of an event. -/
def tinyOptions : FileSinkOptions where
  path := ascii "a.log"
  format := .human
  append := true
  maxFileSize := 3
  maxFiles := 2
  compressRotated := false

/-- A sink that streams messages. -/
def messageSink : SinkBase Bool := ⟨some fun event => some event.message, none⟩

/-- A `path` and a `path.2`, and no `path.1`. -/
def gapFiles : Files := fun path =>
  if path = ascii "a.log" then some (ascii "start")
  else if path = ascii "a.log.2" then some (ascii "old")
  else none

theorem rotation_keeps_newest_gapFiles :
    ∃ removed, contents (tinyOptions.slots none gapFiles) ++
        ([quotesEvent, quotesEvent].filterMap
          (streamed halfOrNan messageSink tinyOptions.format)).flatten =
      contents removed ++ contents (tinyOptions.slots none
        (writes none halfOrNan messageSink (construct { tinyOptions with append := true } gapFiles)
          [quotesEvent, quotesEvent]).files) := by
  obtain ⟨⟨-, -, removed, -, -, hcontents, -⟩, -⟩ := rotation_keeps_newest none halfOrNan
    messageSink tinyOptions (by decide) rfl gapFiles [quotesEvent, quotesEvent]
  exact ⟨removed, hcontents⟩

end FileSink

end Logspine
