import Yaeos.Video.Screen

/-!
# Writing to the video console

`video_write` looks for the next line break with `kstrchr`, from the start of the string and
from behind each end of a line.  `Scan` is a terminal with this way of looking: a line break
that stands behind a `NUL` is only seen where the line is full.
-/

namespace Yaeos

/-- A screen, and whether there was a `NUL` since the search for a line break began. -/
structure Scan where
  screen : Terminal videoHeight videoWidth Nat
  hidden : Bool

namespace Scan

def feed (color : Nat) (scan : Scan) (c : Nat) : Scan :=
  if c = byteOf '\n' ∧ (scan.hidden = false ∨ scan.screen.col = videoWidth) then
    { screen := scan.screen.breakLine (VideoState.charset color).blank, hidden := false }
  else
    { screen := (scan.screen.wrapLine (VideoState.charset color).blank).write
        ((VideoState.charset color).glyph c)
      hidden := (scan.hidden && decide (scan.screen.col ≠ videoWidth)) || decide (c = 0) }

/-- The search has not found a line break among the characters. -/
def NoBreak : (hidden : Bool) → List Nat → Prop
  | _, [] => True
  | hidden, c :: text => (c = byteOf '\n' → hidden = true) ∧ NoBreak (hidden || decide (c = 0)) text

theorem noBreak_hidden (text : List Nat) : NoBreak true text := by
  induction text with
  | nil => trivial
  | cons c text inductionHypothesis => exact ⟨fun _ => rfl, inductionHypothesis⟩

theorem NoBreak.take {hidden : Bool} {text : List Nat} (noBreak : NoBreak hidden text) (w : Nat) :
    NoBreak hidden (text.take w) := by
  induction text generalizing hidden w with
  | nil => rwa [List.take_nil]
  | cons c text inductionHypothesis =>
      cases w with
      | zero => trivial
      | succ w => exact ⟨noBreak.1, inductionHypothesis noBreak.2 w⟩

theorem noBreak_of_forall {text : List Nat} (clean : ∀ c ∈ text, c ≠ byteOf '\n')
    (hidden : Bool) : NoBreak hidden text := by
  induction text generalizing hidden with
  | nil => trivial
  | cons c text inductionHypothesis =>
      obtain ⟨first, others⟩ := List.forall_mem_cons.mp clean
      exact ⟨fun isBreak => absurd isBreak first, inductionHypothesis others _⟩

variable {screen : Terminal videoHeight videoWidth Nat} {hidden : Bool} {c : Nat}

/-- A character of a line that is not full. -/
theorem feed_char (color : Nat) (room : screen.col < videoWidth)
    (noBreak : c = byteOf '\n' → hidden = true) : feed color ⟨screen, hidden⟩ c =
      ⟨screen.write ((VideoState.charset color).glyph c), hidden || decide (c = 0)⟩ := by
  have notFull : screen.col ≠ videoWidth := Nat.ne_of_lt room
  have unseen : ¬(c = byteOf '\n' ∧ (hidden = false ∨ screen.col = videoWidth)) := by
    rintro ⟨isBreak, shown | full⟩
    · rw [noBreak isBreak] at shown
      cases shown
    · exact notFull full
  simp only [feed, if_neg unseen, Terminal.wrapLine, if_neg notFull, decide_eq_true notFull,
    Bool.and_true]

/-- A line break that the search finds. -/
theorem feed_break (color : Nat) (seen : hidden = false ∨ screen.col = videoWidth) :
    feed color ⟨screen, hidden⟩ (byteOf '\n') =
      ⟨screen.breakLine (VideoState.charset color).blank, false⟩ := by
  rw [feed, if_pos ⟨rfl, seen⟩]

/-- A full line can be broken before the next character comes. -/
theorem feed_full (color : Nat) (full : screen.col = videoWidth) (other : c ≠ byteOf '\n') :
    feed color ⟨screen, hidden⟩ c =
      feed color ⟨screen.breakLine (VideoState.charset color).blank, false⟩ c := by
  have room : (screen.breakLine (VideoState.charset color).blank).col < videoWidth := by
    rw [Terminal.breakLine_col]
    decide
  rw [feed_char color room fun isBreak => absurd isBreak other, feed,
    if_neg fun isBreak => other isBreak.1]
  simp only [Terminal.wrapLine, full, if_true, ne_eq, not_true_eq_false, decide_false,
    Bool.and_false, Bool.false_or]

/-- Without a `NUL` the search goes on. -/
theorem hidden_of_forall (color : Nat) {text : List Nat} (clean : ∀ c ∈ text, c ≠ 0)
    (screen : Terminal videoHeight videoWidth Nat) :
    (text.foldl (feed color) ⟨screen, false⟩).hidden = false := by
  induction text generalizing screen with
  | nil => rfl
  | cons c text inductionHypothesis =>
      obtain ⟨first, others⟩ := List.forall_mem_cons.mp clean
      have shown : (feed color ⟨screen, false⟩ c).hidden = false := by
        unfold feed
        split
        · rfl
        · rw [decide_eq_false first]
          rfl
      rw [List.foldl_cons]
      generalize feed color ⟨screen, false⟩ c = next at shown
      obtain ⟨nextScreen, nextHidden⟩ := next
      obtain rfl : nextHidden = false := shown
      exact inductionHypothesis others nextScreen

end Scan

variable {str rest : List Nat} {w size left : Nat} {state after : VideoState} {hidden : Bool}

/-- Where the search ends at a `NUL`, every line break is behind one. -/
theorem Scan.noBreak_of_kstrchr (searched : Memory.kstrchr str (byteOf '\n') = .ok none) :
    Scan.NoBreak false str := by
  induction str with
  | nil => trivial
  | cons byte str inductionHypothesis =>
      rcases Memory.kstrchr_cons searched with
        ⟨rfl, -⟩ | ⟨-, -, found⟩ | ⟨nonzero, other, later, returned, mapped⟩
      · exact ⟨fun isBreak => absurd isBreak (by decide), Scan.noBreak_hidden str⟩
      · cases found
      · refine ⟨fun isBreak => absurd isBreak other, ?_⟩
        rw [decide_eq_false nonzero]
        cases later with
        | none => exact inductionHypothesis returned
        | some earlier => cases mapped

/-- The characters of a chunk are read before they are written. -/
theorem length_of_writeChars (returned : writeChars w str state = .ok (rest, after)) :
    w ≤ str.length := by
  induction w generalizing str state with
  | zero => exact Nat.zero_le _
  | succ w inductionHypothesis =>
      obtain ⟨byte, read, returned⟩ := Outcome.bind_eq_ok.mp returned
      cases str with
      | nil => cases read
      | cons c str => exact Nat.succ_le_succ (inductionHypothesis returned)

/-- A chunk that fits into the line and has no line break that the search finds. -/
theorem writeChars_scan (inside : state.terminal.Inside) (room : state.col + w ≤ videoWidth)
    (readable : w ≤ str.length) (noBreak : Scan.NoBreak hidden (str.take w)) :
    ∃ after, writeChars w str state = .ok (str.drop w, after) ∧ after.col = state.col + w ∧
      after.terminal.Inside ∧ state.Shows after
        ((str.take w).foldl (Scan.feed state.color) ⟨state.terminal, hidden⟩).screen := by
  induction w generalizing str state hidden with
  | zero => exact ⟨state, rfl, rfl, inside, rfl, rfl, .refl state⟩
  | succ w inductionHypothesis =>
      cases str with
      | nil => exact absurd readable (Nat.not_succ_le_zero w)
      | cons c str =>
          have here : state.col < videoWidth := by omega
          have first := VideoState.shows_putChar inside here c
          rw [writeChars, Memory.readSlot_cons, Outcome.ok_bind]
          have nextCol : (putChar c state).col = state.col + 1 := rfl
          have nextInside : (putChar c state).terminal.Inside := by
            rw [first.terminal]
            exact inside.write here _
          obtain ⟨after, returned, col, afterInside, shows⟩ := inductionHypothesis nextInside
            (by omega) (Nat.le_of_succ_le_succ readable) noBreak.2
          refine ⟨after, returned, by omega, afterInside, ?_⟩
          rw [List.take_succ_cons, List.foldl_cons, Scan.feed_char state.color here noBreak.1]
          have both := first.trans shows
          rwa [first.terminal, first.color] at both

/-- How a round ends that has written `w` characters. -/
inductive RoundEnds (str : List Nat) (size w : Nat) (chars : VideoState) :
    List Nat → Nat → VideoState → Prop
  | done (all : w = size) : RoundEnds str size w chars (str.drop w) 0 chars
  | lineBreak {text : List Nat} (more : w < size) (next : str.drop w = byteOf '\n' :: text)
      (seen : (∀ c ∈ str.take w, c ≠ 0) ∨ chars.col = videoWidth) :
      RoundEnds str size w chars text (size - w - 1) (breakLine chars)
  | full {c : Nat} {text : List Nat} (more : w < size) (next : str.drop w = c :: text)
      (other : c ≠ byteOf '\n') (full : chars.col = videoWidth) :
      RoundEnds str size w chars (c :: text) (size - w) (breakLine chars)

theorem chunkWidth_le {col : Nat} (inside : col ≤ videoWidth) (size : Nat) (nlPos : Option Nat) :
    chunkWidth size col nlPos ≤ size ∧ col + chunkWidth size col nlPos ≤ videoWidth := by
  have room : wrapSub videoWidth col = videoWidth - col := wrapSub_of_le inside (by decide)
  unfold chunkWidth
  rw [room]
  cases nlPos <;> dsimp only <;> omega

/-- A chunk ends in front of the line break that was found. -/
theorem noBreak_of_chunkWidth {nlPos : Option Nat}
    (searched : Memory.kstrchr str (byteOf '\n') = .ok nlPos) (size col : Nat) :
    Scan.NoBreak false (str.take (chunkWidth size col nlPos)) := by
  cases nlPos with
  | none => exact (Scan.noBreak_of_kstrchr searched).take _
  | some nlPos =>
      obtain ⟨line, text, rfl, rfl, clean⟩ := Memory.kstrchr_some searched
      have short : chunkWidth size col (some line.length) ≤ line.length := Nat.min_le_right _ _
      rw [List.take_append_of_le_length short]
      exact Scan.noBreak_of_forall (fun c member => (clean c (List.mem_of_mem_take member)).2) false

/-- A chunk that does not end the text fills the line, or a line break follows that is not
behind a `NUL`. -/
theorem chunkWidth_cases {nlPos : Option Nat} {col : Nat} (inside : col ≤ videoWidth)
    (searched : Memory.kstrchr str (byteOf '\n') = .ok nlPos)
    (more : chunkWidth size col nlPos < size) :
    col + chunkWidth size col nlPos = videoWidth ∨
      (∀ c ∈ str.take (chunkWidth size col nlPos), c ≠ 0) ∧
        ∃ text, str.drop (chunkWidth size col nlPos) = byteOf '\n' :: text := by
  have room : wrapSub videoWidth col = videoWidth - col := wrapSub_of_le inside (by decide)
  cases nlPos with
  | none =>
      refine .inl ?_
      unfold chunkWidth at *
      rw [room] at *
      dsimp only at *
      omega
  | some nlPos =>
      obtain ⟨line, text, rfl, rfl, clean⟩ := Memory.kstrchr_some searched
      by_cases found : chunkWidth size col (some line.length) = line.length
      · refine .inr ⟨?_, text, ?_⟩
        · rw [found, List.take_left']
          · exact fun c member => (clean c member).1
          · rfl
        · rw [found, List.drop_left']
          rfl
      · refine .inl ?_
        unfold chunkWidth at *
        rw [room] at *
        dsimp only at *
        omega

/-- Everything that a round does. -/
theorem videoWriteRound_ok (inside : state.terminal.Inside)
    (returned : videoWriteRound str size state = .ok (rest, left, after)) :
    ∃ w chars, w ≤ size ∧ state.col + w ≤ videoWidth ∧ w ≤ str.length ∧
      Scan.NoBreak false (str.take w) ∧ writeChars w str state = .ok (str.drop w, chars) ∧
      chars.col = state.col + w ∧ RoundEnds str size w chars rest left after := by
  have col : state.col ≤ videoWidth := inside.col
  obtain ⟨nlPos, searched, returned⟩ := Outcome.bind_eq_ok.mp returned
  obtain ⟨short, fits⟩ := chunkWidth_le col size nlPos
  have noBreak := noBreak_of_chunkWidth searched size state.col
  have ends : chunkWidth size state.col nlPos < size → _ := chunkWidth_cases col searched
  dsimp only at returned
  generalize chunkWidth size state.col nlPos = w at *
  obtain ⟨⟨str', chars⟩, wrote, returned⟩ := Outcome.bind_eq_ok.mp returned
  have readable := length_of_writeChars wrote
  obtain ⟨chars', wrote', charsCol, -, -⟩ := writeChars_scan inside fits readable noBreak
  cases wrote.symm.trans wrote'
  refine ⟨w, chars, short, fits, readable, noBreak, wrote, charsCol, ?_⟩
  dsimp only at returned
  split at returned
  · next more =>
      obtain ⟨byte, read, returned⟩ := Outcome.bind_eq_ok.mp returned
      cases next : str.drop w with
      | nil => rw [next] at read; cases read
      | cons c text =>
          rw [next] at read returned
          cases read
          rcases ends (by omega) with full | ⟨clean, line, found⟩
          · by_cases isBreak : byte = byteOf '\n'
            · subst isBreak
              rw [if_pos rfl] at returned
              cases returned
              exact .lineBreak (by omega) next (.inr (charsCol.trans full))
            · rw [if_neg isBreak] at returned
              cases returned
              exact .full (by omega) next isBreak (charsCol.trans full)
          · cases next.symm.trans found
            rw [if_pos rfl] at returned
            cases returned
            exact .lineBreak (by omega) next (.inl clean)
  · next done =>
      cases returned
      have all : w = size := by omega
      rw [show size - w = 0 by omega]
      exact .done all

/-- What `video_write` makes of the screen. -/
def VideoState.scanned (state : VideoState) (text : List Nat) :
    Terminal videoHeight videoWidth Nat :=
  (text.foldl (Scan.feed state.color) ⟨state.terminal, false⟩).screen

/-- The line is full. -/
def VideoState.Full (state : VideoState) : Prop := state.col = videoWidth

instance (state : VideoState) : Decidable state.Full := inferInstanceAs (Decidable (_ = _))

/-- A measure of what is left: a round that writes nothing breaks a full line. -/
def roundsLeft (size : Nat) (state : VideoState) : Nat := 2 * size + if state.Full then 1 else 0

/-- A round goes on with a part of the string, after which the screen is the same. -/
structure RoundScans (str : List Nat) (size : Nat) (state : VideoState) (rest : List Nat) (left : Nat)
    (after : VideoState) : Prop where
  inside : after.terminal.Inside
  color : after.color = state.color
  writes : state.WritesInside after
  scan : after.scanned (rest.take left) = state.scanned (str.take size)
  progress : roundsLeft left after < roundsLeft size state

theorem videoWriteRound_scans (inside : state.terminal.Inside) (positive : 0 < size)
    (returned : videoWriteRound str size state = .ok (rest, left, after)) :
    RoundScans str size state rest left after := by
  obtain ⟨w, chars, short, fits, readable, noBreak, wrote, col, ends⟩ :=
    videoWriteRound_ok inside returned
  obtain ⟨chars', wrote', -, charsInside, shows⟩ := writeChars_scan inside fits readable noBreak
  cases wrote.symm.trans wrote'
  have split : str.take size = str.take w ++ (str.drop w).take (size - w) := by
    rw [← List.take_add, Nat.add_sub_cancel' short]
  have broken := VideoState.shows_breakLine charsInside
  have atStart : ¬(breakLine chars).Full := by
    intro full
    have start : (breakLine chars).terminal.col = 0 := by
      rw [broken.terminal, Terminal.breakLine_col]
    exact absurd (start.symm.trans full) (by decide)
  have scan : state.scanned (str.take size) =
      (((str.drop w).take (size - w)).foldl (Scan.feed state.color)
        ⟨chars.terminal, ((str.take w).foldl (Scan.feed state.color)
          ⟨state.terminal, false⟩).hidden⟩).screen := by
    rw [VideoState.scanned, split, List.foldl_append, shows.terminal]
  have brokenInside : (breakLine chars).terminal.Inside := by
    rw [broken.terminal]
    exact charsInside.breakLine _
  have color : (breakLine chars).color = state.color := broken.color.trans shows.color
  have writes : state.WritesInside (breakLine chars) := shows.inside.trans broken.inside
  cases ends with
  | done all =>
      subst all
      refine ⟨charsInside, shows.color, shows.inside, ?_, ?_⟩
      · rw [scan]
        simp [VideoState.scanned]
      · unfold roundsLeft
        split <;> omega
  | @lineBreak text more next seen =>
      refine ⟨brokenInside, color, writes, ?_, ?_⟩
      · have shown : ((str.take w).foldl (Scan.feed state.color) ⟨state.terminal, false⟩).hidden =
            false ∨ chars.terminal.col = videoWidth :=
          seen.imp_left fun clean => Scan.hidden_of_forall state.color clean state.terminal
        obtain ⟨others, count⟩ : ∃ others, size - w = others + 1 := ⟨size - w - 1, by omega⟩
        rw [scan, next, count, List.take_succ_cons, List.foldl_cons, Scan.feed_break _ shown,
          VideoState.scanned, color, broken.terminal, shows.color]
        rfl
      · unfold roundsLeft
        rw [if_neg atStart]
        omega
  | @full c text more next other full =>
      refine ⟨brokenInside, color, writes, ?_, ?_⟩
      · obtain ⟨others, count⟩ : ∃ others, size - w = others + 1 := ⟨size - w - 1, by omega⟩
        rw [scan, next, count, List.take_succ_cons, List.foldl_cons,
          Scan.feed_full _ (show chars.terminal.col = videoWidth from full) other,
          VideoState.scanned, color, broken.terminal, shows.color, List.foldl_cons]
      · unfold roundsLeft
        rw [if_neg atStart]
        by_cases still : w = 0
        · have already : state.Full := by
            show state.col = videoWidth
            omega
          rw [if_pos already]
          omega
        · omega

theorem writeChars_onlyReads (w : Nat) (str : List Nat) (state : VideoState) :
    Memory.OnlyReads (writeChars w str state) := by
  induction w generalizing str state with
  | zero => exact .ok _
  | succ w inductionHypothesis =>
      exact (Memory.readSlot_onlyReads str 0).bind fun _ => inductionHypothesis _ _

theorem videoWriteRound_onlyReads (str : List Nat) (size : Nat) (state : VideoState) :
    Memory.OnlyReads (videoWriteRound str size state) := by
  refine (Memory.kstrchr_onlyReads str _).bind fun nlPos => ?_
  refine (writeChars_onlyReads _ str state).bind fun chars => ?_
  dsimp only
  split
  · exact (Memory.readSlot_onlyReads _ 0).bind fun byte => .ok _
  · exact .ok _

theorem videoWrite_succ (positive : 0 < size) (rounds : Nat) :
    videoWrite (rounds + 1) str size state = (do
      let (rest, left, after) ← videoWriteRound str size state
      videoWrite rounds rest left after) := if_pos positive

/-- A call that reads nothing behind the string returns, and the screen is that of the scan. -/
theorem videoWrite_scans {rounds : Nat} (inside : state.terminal.Inside)
    (readable : ∀ rounds, videoWrite rounds str size state ≠ .error .outOfBounds)
    (enough : roundsLeft size state < rounds) :
    ∃ after, videoWrite rounds str size state = .ok after ∧ after.terminal.Inside ∧
      state.Shows after (state.scanned (str.take size)) := by
  induction rounds generalizing str size state with
  | zero => omega
  | succ rounds inductionHypothesis =>
      by_cases positive : 0 < size
      · rcases (videoWriteRound_onlyReads str size state).cases with
          faults | ⟨⟨rest, left, next⟩, returned⟩
        · refine absurd ?_ (readable 1)
          rw [videoWrite_succ positive, faults]
          rfl
        · have same (rounds : Nat) : videoWrite (rounds + 1) str size state =
              videoWrite rounds rest left next := by
            rw [videoWrite_succ positive, returned]
            rfl
          have scans := videoWriteRound_scans inside positive returned
          have progress := scans.progress
          obtain ⟨after, ended, afterInside, shows⟩ := inductionHypothesis scans.inside
            (fun rounds => same rounds ▸ readable (rounds + 1)) (by omega)
          refine ⟨after, (same rounds).trans ended, afterInside, ?_⟩
          exact ⟨shows.terminal.trans scans.scan, shows.color.trans scans.color,
            scans.writes.trans shows.inside⟩
      · obtain rfl : size = 0 := by omega
        exact ⟨state, rfl, inside, rfl, rfl, .refl state⟩

end Yaeos
