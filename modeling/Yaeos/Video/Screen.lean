import Yaeos.Video.Basic

/-!
# The screen of the video console

The cells of the buffer are the lines of a terminal, one after the other.  `scroll_down`
copies from below, and so reads every cell before it is written.
-/

namespace Yaeos

namespace VideoState

/-- The number of cells of the screen. -/
def screenCells : Nat := videoHeight * videoWidth

/-- What the screen shows. -/
def terminal (state : VideoState) : Terminal videoHeight videoWidth Nat where
  cells y x := state.buffer (y.val * videoWidth + x.val)
  row := state.row
  col := state.col

/-- The characters of a text in the colour of the console. -/
def charset (color : Nat) : Charset Nat Nat where
  lineBreak := byteOf '\n'
  blank := videoChar (byteOf ' ') color
  glyph uc := videoChar uc color

/-- Only cells of the screen were written in between. -/
def WritesInside (before after : VideoState) : Prop :=
  ∃ new, after.written = new ++ before.written ∧ ∀ index ∈ new, index < screenCells

/-- A loop wrote `n` cells from `base` on. -/
structure Filled (base n : Nat) (value : Nat → Nat) (before after : VideoState) : Prop where
  row : after.row = before.row
  col : after.col = before.col
  color : after.color = before.color
  buffer : ∀ index, after.buffer index =
    if base ≤ index ∧ index < base + n then value (index - base) else before.buffer index
  written : ∃ new, after.written = new ++ before.written ∧ ∀ index ∈ new, index < base + n

variable {base n : Nat} {value : Nat → Nat} {state before after last : VideoState}

theorem WritesInside.refl (state : VideoState) : state.WritesInside state := ⟨[], rfl, nofun⟩

theorem WritesInside.trans (first : before.WritesInside after) (second : after.WritesInside last) :
    before.WritesInside last := by
  obtain ⟨new, ofFirst, inside⟩ := first
  obtain ⟨more, ofSecond, insideMore⟩ := second
  refine ⟨more ++ new, by rw [ofSecond, ofFirst, List.append_assoc], ?_⟩
  exact List.forall_mem_append.mpr ⟨insideMore, inside⟩

theorem Filled.zero (base : Nat) (value : Nat → Nat) (state : VideoState) :
    Filled base 0 value state state := by
  refine ⟨rfl, rfl, rfl, fun index => (if_neg ?_).symm, [], rfl, nofun⟩
  omega

/-- One cell more. -/
theorem Filled.setCell (filled : Filled base n value before after) :
    Filled base (n + 1) value before (after.setCell (base + n) (value n)) := by
  obtain ⟨row, col, color, buffer, new, written, inside⟩ := filled
  refine ⟨row, col, color, fun index => ?_, (base + n) :: new, ?_, ?_⟩
  · by_cases last : index = base + n
    · subst last
      simp [VideoState.setCell]
    · simp only [VideoState.setCell, Function.update_of_ne last, buffer]
      congr 1
      exact propext (by omega)
  · simp only [VideoState.setCell, written, List.cons_append]
  · refine List.forall_mem_cons.mpr ⟨Nat.lt_succ_self _, fun index member => ?_⟩
    exact Nat.lt_succ_of_lt (inside index member)

/-- A loop over cells whose values do not depend on the cells that it has written. -/
theorem filled_range {step : VideoState → Nat → VideoState}
    (stepped : ∀ x < n, ∀ state, Filled base x value before state →
      step state x = state.setCell (base + x) (value x)) :
    Filled base n value before ((List.range n).foldl step before) := by
  induction n with
  | zero => exact Filled.zero base value before
  | succ n inductionHypothesis =>
      have filled := inductionHypothesis fun x below => stepped x (Nat.lt_succ_of_lt below)
      rw [List.range_succ, List.foldl_append, List.foldl_cons, List.foldl_nil,
        stepped n (Nat.lt_succ_self n) _ filled]
      exact filled.setCell

/-- Two loops, the second of which goes on where the first one ended. -/
theorem Filled.append {more : Nat} (first : Filled base n value before after)
    (second : Filled (base + n) more (fun x => value (n + x)) after last) :
    Filled base (n + more) value before last := by
  refine ⟨second.row.trans first.row, second.col.trans first.col,
    second.color.trans first.color, fun index => ?_, ?_⟩
  · rw [second.buffer, first.buffer]
    by_cases later : base + n ≤ index ∧ index < base + n + more
    · rw [if_pos later, if_pos (by omega)]
      congr 1
      omega
    · rw [if_neg later]
      congr 1
      exact propext (by omega)
  · obtain ⟨new, ofFirst, inside⟩ := first.written
    obtain ⟨others, ofSecond, insideOthers⟩ := second.written
    refine ⟨others ++ new, by rw [ofSecond, ofFirst, List.append_assoc], ?_⟩
    refine List.forall_mem_append.mpr ⟨fun index member => ?_, fun index member => ?_⟩
    · have below := insideOthers index member
      omega
    · have below := inside index member
      omega

theorem Filled.writesInside (filled : Filled base n value before after)
    (inside : base + n ≤ screenCells) : before.WritesInside after := by
  obtain ⟨new, written, below⟩ := filled.written
  exact ⟨new, written, fun index member => Nat.lt_of_lt_of_le (below index member) inside⟩

/-- A row gets the cells of the row below. -/
theorem scrollRow_filled (state : VideoState) (y : Nat) :
    Filled (y * videoWidth) videoWidth
      (fun x => state.buffer (y * videoWidth + x + videoWidth)) state (scrollRow state y) := by
  refine filled_range fun x below state filled => ?_
  have unread : ¬(y * videoWidth ≤ y * videoWidth + x + videoWidth ∧
      y * videoWidth + x + videoWidth < y * videoWidth + x) := by omega
  dsimp only
  rw [filled.buffer, if_neg unread]

/-- All cells but those of the last row are copied from below. -/
theorem scrollDown_filled (state : VideoState) :
    Filled 0 ((videoHeight - 1) * videoWidth) (fun index => state.buffer (index + videoWidth)) state
      (scrollDown state) := by
  unfold scrollDown
  generalize videoHeight - 1 = rows
  induction rows with
  | zero =>
      rw [Nat.zero_mul]
      exact Filled.zero 0 _ state
  | succ rows inductionHypothesis =>
      rw [List.range_succ, List.foldl_append, List.foldl_cons, List.foldl_nil, Nat.succ_mul]
      refine inductionHypothesis.append ?_
      have row := scrollRow_filled ((List.range rows).foldl scrollRow state) rows
      rw [Nat.zero_add]
      convert row using 2 with x
      have unread : ¬(0 ≤ rows * videoWidth + x + videoWidth ∧
          rows * videoWidth + x + videoWidth < 0 + rows * videoWidth) := by omega
      rw [inductionHypothesis.buffer, if_neg unread]

/-- A row is made blank. -/
theorem blankRow_filled (state : VideoState) :
    Filled (state.row * videoWidth) videoWidth (fun _ => videoChar (byteOf ' ') state.color) state
      ((List.range videoWidth).foldl
        (fun state x => writeChar (byteOf ' ') state.color x state.row state) state) := by
  refine filled_range fun x below other filled => ?_
  dsimp only [writeChar]
  rw [filled.row, filled.color]

theorem clearRow_filled (state : VideoState) (y : Nat) :
    Filled (y * videoWidth) videoWidth (fun _ => videoChar (byteOf ' ') state.color) state
      (clearRow state y) := by
  refine filled_range fun x below other filled => ?_
  dsimp only [writeChar]
  rw [filled.color]

theorem videoClear_filled (state : VideoState) :
    Filled 0 (videoHeight * videoWidth) (fun _ => videoChar (byteOf ' ') state.color) state
      (videoClear state) := by
  unfold videoClear
  generalize videoHeight = rows
  induction rows with
  | zero =>
      rw [Nat.zero_mul]
      exact Filled.zero 0 _ state
  | succ rows inductionHypothesis =>
      rw [List.range_succ, List.foldl_append, List.foldl_cons, List.foldl_nil, Nat.succ_mul]
      refine inductionHypothesis.append ?_
      have row := clearRow_filled ((List.range rows).foldl clearRow state) rows
      rw [inductionHypothesis.color] at row
      rw [Nat.zero_add]
      exact row

/-- The screen is this one afterwards, in the same colour, and nothing else was written. -/
structure Shows (before after : VideoState) (screen : Terminal videoHeight videoWidth Nat) :
    Prop where
  terminal : after.terminal = screen
  color : after.color = before.color
  inside : before.WritesInside after

theorem Shows.trans {first second : Terminal videoHeight videoWidth Nat}
    (one : before.Shows after first) (two : after.Shows last second) : before.Shows last second :=
  ⟨two.terminal, two.color.trans one.color, one.inside.trans two.inside⟩

theorem terminal_ext {screen : Terminal videoHeight videoWidth Nat} (row : state.row = screen.row)
    (col : state.col = screen.col)
    (cells : ∀ y x, state.buffer (y.val * videoWidth + x.val) = screen.cells y x) :
    state.terminal = screen := by
  obtain ⟨_, _, _⟩ := screen
  obtain rfl : _ = _ := row
  obtain rfl : _ = _ := col
  exact congrArg (Terminal.mk · state.row state.col) (funext fun y => funext fun x => cells y x)

/-- A character is written at the cursor. -/
theorem shows_putChar (inside : state.terminal.Inside) (room : state.col < videoWidth) (c : Nat) :
    state.Shows (putChar c state) (state.terminal.write ((charset state.color).glyph c)) := by
  have row : state.row < videoHeight := inside.row
  refine ⟨terminal_ext rfl rfl fun y x => ?_, rfl, [state.row * videoWidth + state.col], rfl, ?_⟩
  · show Function.update state.buffer (state.row * videoWidth + state.col)
        (videoChar c state.color) (y.val * videoWidth + x.val) =
      if y.val = state.row ∧ x.val = state.col then videoChar c state.color
      else state.buffer (y.val * videoWidth + x.val)
    by_cases here : y.val = state.row ∧ x.val = state.col
    · rw [if_pos here, here.1, here.2, Function.update_self]
    · rw [if_neg here, Function.update_of_ne]
      have below := x.isLt
      unfold videoWidth at *
      omega
  · simp only [List.mem_singleton, forall_eq]
    unfold screenCells videoHeight videoWidth at *
    omega

/-- The cells of the last row. -/
theorem inLastRow_iff (y : Fin videoHeight) (x : Fin videoWidth) :
    ((videoHeight - 1) * videoWidth ≤ y.val * videoWidth + x.val ∧
      y.val * videoWidth + x.val < (videoHeight - 1) * videoWidth + videoWidth) ↔
    ¬y.val + 1 < videoHeight := by
  have height := y.isLt
  have width := x.isLt
  unfold videoHeight videoWidth at *
  omega

/-- The cells of the other rows are those that the screen moves up. -/
theorem lt_lastRow (x : Fin videoWidth) {y : Nat} (above : y + 1 < videoHeight) :
    y * videoWidth + x.val < 0 + (videoHeight - 1) * videoWidth := by
  have width := x.isLt
  unfold videoHeight videoWidth at *
  omega

/-- The line is broken, and at the bottom the screen moves up. -/
theorem shows_breakLine (inside : state.terminal.Inside) :
    state.Shows (Yaeos.breakLine state)
      (state.terminal.breakLine (charset state.color).blank) := by
  have row : state.row < videoHeight := inside.row
  unfold Yaeos.breakLine Terminal.breakLine
  dsimp only
  by_cases bottom : state.row + 1 < videoHeight
  · rw [if_neg (Nat.not_le.mpr bottom), if_pos (show state.terminal.row + 1 < videoHeight from bottom)]
    exact ⟨terminal_ext rfl rfl fun y x => rfl, rfl, .refl state⟩
  · rw [if_pos (Nat.le_of_not_lt bottom),
      if_neg (show ¬state.terminal.row + 1 < videoHeight from bottom)]
    have atBottom : state.row = videoHeight - 1 := by omega
    have scrolled := scrollDown_filled { state with row := state.row + 1, col := 0 }
    generalize scrollDown { state with row := state.row + 1, col := 0 } = moved at scrolled
    have sameRow : moved.row - 1 = state.row := by rw [scrolled.row]; rfl
    have blanked := blankRow_filled { moved with row := moved.row - 1 }
    generalize (List.range videoWidth).foldl (fun state x => writeChar (byteOf ' ') state.color x
      state.row state) { moved with row := moved.row - 1 } = blank at blanked
    refine ⟨terminal_ext ?_ ?_ fun y x => ?_, ?_, ?_⟩
    · exact blanked.row.trans sameRow
    · exact blanked.col.trans scrolled.col
    · rw [blanked.buffer]
      dsimp only
      rw [sameRow, scrolled.buffer, atBottom]
      by_cases above : y.val + 1 < videoHeight
      · have below : y.val * videoWidth + x.val - 0 + videoWidth =
            (y.val + 1) * videoWidth + x.val := by
          rw [Nat.succ_mul]
          omega
        rw [if_neg fun last => (inLastRow_iff y x).mp last above,
          if_pos ⟨Nat.zero_le _, lt_lastRow x above⟩, dif_pos above, below]
        rfl
      · rw [if_pos ((inLastRow_iff y x).mpr above), dif_neg above, scrolled.color]
        rfl
    · exact blanked.color.trans scrolled.color
    · have scroll : state.WritesInside moved := scrolled.writesInside (by decide)
      refine scroll.trans (blanked.writesInside ?_)
      dsimp only
      rw [sameRow, atBottom]
      decide

/-- All cells are blank, and the cursor has not moved. -/
theorem shows_videoClear (state : VideoState) :
    state.Shows (videoClear state) (state.terminal.clear (charset state.color).blank) := by
  have filled := videoClear_filled state
  refine ⟨terminal_ext filled.row filled.col fun y x => ?_, filled.color,
    filled.writesInside (by decide)⟩
  have inside : y.val * videoWidth + x.val < 0 + videoHeight * videoWidth := by
    have height := y.isLt
    have width := x.isLt
    unfold videoHeight videoWidth at *
    omega
  rw [filled.buffer, if_pos ⟨Nat.zero_le _, inside⟩]
  rfl

end VideoState

end Yaeos
