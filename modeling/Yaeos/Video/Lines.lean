import Yaeos.Video.Reads

/-!
# Where the video console is a terminal

The console shows a text as a terminal does until the first line break that stands in its
line behind a `NUL`; this one is written as a character.
-/

namespace Yaeos

/-- No line break stands behind a `NUL`, counted from where its line begins, unless the line
is full. -/
def linesShown : (col : Nat) → (hidden : Bool) → List Nat → Bool
  | _, _, [] => true
  | col, hidden, c :: text =>
      if c = byteOf '\n' then
        (!hidden || decide (col = videoWidth)) && linesShown 0 false text
      else if col = videoWidth then linesShown 1 (decide (c = 0)) text
      else linesShown (col + 1) (hidden || decide (c = 0)) text

namespace VideoState

/-- `video_write` returns, writes only cells of the screen, and leaves what a terminal
leaves after the first `size` characters. -/
def ActsAsTerminal (state : VideoState) (str : List Nat) (size : Nat) : Prop :=
  ∃ rounds after, videoWrite rounds str size state = .ok after ∧
    after.row < videoHeight ∧ after.col ≤ videoWidth ∧ state.WritesInside after ∧
    after.terminal = (str.take size).foldl (Terminal.feed (charset state.color)) state.terminal

end VideoState

variable {str : List Nat} {size n : Nat} {state : VideoState}

/-- Two runs that return leave the same state. -/
theorem videoWrite_unique {rounds others : Nat} {first second : VideoState}
    (one : videoWrite rounds str size state = .ok first)
    (two : videoWrite others str size state = .ok second) : first = second := by
  induction rounds generalizing others str size state with
  | zero => cases one
  | succ rounds inductionHypothesis =>
      cases others with
      | zero => cases two
      | succ others =>
          by_cases positive : 0 < size
          · rw [videoWrite_succ positive] at one two
            obtain ⟨next, returned, one⟩ := Outcome.bind_eq_ok.mp one
            obtain ⟨next', returned', two⟩ := Outcome.bind_eq_ok.mp two
            cases returned.symm.trans returned'
            exact inductionHypothesis one two
          · have ended (rounds : Nat) : videoWrite (rounds + 1) str size state = .ok state :=
              if_neg positive
            cases one.symm.trans (ended rounds)
            cases two.symm.trans (ended others)
            rfl

/-- Two scans that agree at the start agree on every beginning of a text if they do behind its
first symbol. -/
theorem agree_cons {First Second Symbol : Type} {step : First → Symbol → First}
    {other : Second → Symbol → Second} {view : First → Second} {first : First} {second : Second}
    (start : view first = second) (symbol : Symbol) (text : List Symbol) :
    (∀ k, view (((symbol :: text).take k).foldl step first) =
      ((symbol :: text).take k).foldl other second) ↔
    ∀ k, view ((text.take k).foldl step (step first symbol)) =
      (text.take k).foldl other (other second symbol) := by
  constructor
  · exact fun agree k => agree (k + 1)
  · rintro agree (_ | k)
    · exact start
    · exact agree k

/-- The scan and the terminal agree on every beginning of a text if and only if its line
breaks are shown. -/
theorem scan_agrees_iff (color : Nat) {screen : Terminal videoHeight videoWidth Nat}
    (inside : screen.Inside) (hidden : Bool) (text : List Nat) :
    (∀ k, ((text.take k).foldl (Scan.feed color) ⟨screen, hidden⟩).screen =
      (text.take k).foldl (Terminal.feed (VideoState.charset color)) screen) ↔
    linesShown screen.col hidden text = true := by
  induction text generalizing screen hidden with
  | nil => simp [linesShown]
  | cons c text inductionHypothesis =>
      have width : 0 < videoWidth := by decide
      by_cases isBreak : c = byteOf '\n'
      · subst isBreak
        have fed : screen.feed (VideoState.charset color) (byteOf '\n') =
            screen.breakLine (VideoState.charset color).blank := if_pos rfl
        rw [linesShown, if_pos rfl]
        by_cases seen : hidden = false ∨ screen.col = videoWidth
        · rw [agree_cons rfl, Scan.feed_break color seen, fed,
            inductionHypothesis (inside.breakLine _) false, Terminal.breakLine_col]
          rcases seen with rfl | full
          · rfl
          · rw [decide_eq_true full, Bool.or_true, Bool.true_and]
        · obtain ⟨notShown, notFull⟩ := not_or.mp seen
          have room : screen.col < videoWidth := Nat.lt_of_le_of_ne inside.col notFull
          obtain rfl : hidden = true := Bool.eq_true_of_not_eq_false notShown
          rw [decide_eq_false notFull]
          refine iff_of_false (fun agree => ?_) Bool.false_ne_true
          have first := congrArg Terminal.col (agree 1)
          rw [List.take_succ_cons, List.take_zero, List.foldl_cons, List.foldl_nil, List.foldl_cons,
            List.foldl_nil, fed, Terminal.breakLine_col,
            Scan.feed_char color room fun _ => rfl] at first
          exact Nat.succ_ne_zero _ first
      · have scanned : Scan.feed color ⟨screen, hidden⟩ c = _ := if_neg fun seen => isBreak seen.1
        have fed : screen.feed (VideoState.charset color) c = _ := if_neg isBreak
        have next := (inside.wrapLine (VideoState.charset color).blank).write
          (Terminal.wrapLine_col_lt inside width _) ((VideoState.charset color).glyph c)
        rw [agree_cons rfl, scanned, fed, linesShown, if_neg isBreak, inductionHypothesis next,
          Terminal.write_col]
        by_cases full : screen.col = videoWidth
        · rw [if_pos full, Terminal.wrapLine, if_pos full, Terminal.breakLine_col]
          simp [full]
        · rw [if_neg full, Terminal.wrapLine, if_neg full]
          simp [full]

/-- A text without a `NUL` hides no line break. -/
theorem linesShown_of_forall {text : List Nat} (nulFree : ∀ c ∈ text, c ≠ 0) (col : Nat) :
    linesShown col false text = true := by
  induction text generalizing col with
  | nil => rfl
  | cons c text inductionHypothesis =>
      obtain ⟨first, others⟩ := List.forall_mem_cons.mp nulFree
      rw [linesShown, decide_eq_false first]
      split
      · exact inductionHypothesis others 0
      · split
        · exact inductionHypothesis others 1
        · exact inductionHypothesis others (col + 1)

/-- A string, or a beginning of one, is written as on a terminal. -/
theorem videoWrite_string {rounds : Nat} (s : CString) (inside : state.terminal.Inside)
    (short : size ≤ s.bytes.length) (enough : roundsLeft size state < rounds) :
    ∃ after, videoWrite rounds s.stored size state = .ok after ∧ after.terminal.Inside ∧
      state.Shows after
        ((s.stored.take size).foldl (Terminal.feed (VideoState.charset state.color))
          state.terminal) := by
  obtain ⟨after, returned, afterInside, shows⟩ :=
    videoWrite_scans inside (videoWrite_stored s inside short) enough
  have text : s.stored.take size = s.bytes.take size := List.take_append_of_le_length short
  have shown : linesShown state.col false (s.bytes.take size) = true :=
    linesShown_of_forall (fun c member => s.nonzero c (List.mem_of_mem_take member)) state.col
  have agree := (scan_agrees_iff state.color inside false (s.bytes.take size)).mpr shown size
  rw [List.take_take, Nat.min_self] at agree
  refine ⟨after, returned, afterInside, shows.terminal.trans ?_, shows.color, shows.inside⟩
  rw [text]
  exact agree

theorem VideoState.string_actsAsTerminal (s : CString) (row : state.row < videoHeight)
    (col : state.col ≤ videoWidth) (short : size ≤ s.bytes.length) :
    state.ActsAsTerminal s.stored size := by
  have atCursor : state.terminal.Inside := ⟨row, col⟩
  obtain ⟨after, returned, inside, shows⟩ :=
    videoWrite_string s atCursor short (Nat.lt_succ_self (roundsLeft size state))
  exact ⟨_, after, returned, inside.row, inside.col, shows.inside, shows.terminal⟩

end Yaeos
