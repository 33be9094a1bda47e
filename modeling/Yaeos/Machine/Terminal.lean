import Mathlib.Tactic.Common

/-!
# A scrolling terminal

A screen of cells and a cursor.  A line that is full is broken when the next character comes,
so that a line break right behind it breaks only once.
-/

namespace Yaeos

/-- The screen, and the place of the next character; a full line has the cursor behind it. -/
structure Terminal (height width : Nat) (Cell : Type) where
  cells : Fin height → Fin width → Cell
  row : Nat
  col : Nat

/-- What the symbols of a text look like, and which of them breaks the line. -/
structure Charset (Symbol Cell : Type) where
  lineBreak : Symbol
  blank : Cell
  glyph : Symbol → Cell

namespace Terminal

variable {height width : Nat} {Symbol Cell : Type} [DecidableEq Symbol]

/-- Below the last line the screen moves up. -/
def breakLine (blank : Cell) (terminal : Terminal height width Cell) :
    Terminal height width Cell :=
  if terminal.row + 1 < height then { terminal with row := terminal.row + 1, col := 0 }
  else
    { terminal with
      cells := fun y x =>
        if below : y.val + 1 < height then terminal.cells ⟨y.val + 1, below⟩ x else blank
      col := 0 }

def write (cell : Cell) (terminal : Terminal height width Cell) : Terminal height width Cell :=
  { terminal with
    cells := fun y x =>
      if y.val = terminal.row ∧ x.val = terminal.col then cell else terminal.cells y x
    col := terminal.col + 1 }

/-- The cursor stays where it is. -/
def clear (blank : Cell) (terminal : Terminal height width Cell) : Terminal height width Cell :=
  { terminal with cells := fun _ _ => blank }

/-- A full line is broken first. -/
def wrapLine (blank : Cell) (terminal : Terminal height width Cell) : Terminal height width Cell :=
  if terminal.col = width then terminal.breakLine blank else terminal

def feed (charset : Charset Symbol Cell) (terminal : Terminal height width Cell) (symbol : Symbol) :
    Terminal height width Cell :=
  if symbol = charset.lineBreak then terminal.breakLine charset.blank
  else (terminal.wrapLine charset.blank).write (charset.glyph symbol)

/-- The cursor is on the screen or behind a full line. -/
structure Inside (terminal : Terminal height width Cell) : Prop where
  row : terminal.row < height
  col : terminal.col ≤ width

variable {terminal : Terminal height width Cell} {charset : Charset Symbol Cell}

@[simp]
theorem breakLine_col (blank : Cell) (terminal : Terminal height width Cell) :
    (terminal.breakLine blank).col = 0 := by
  unfold breakLine
  split <;> rfl

@[simp]
theorem write_col (cell : Cell) (terminal : Terminal height width Cell) :
    (terminal.write cell).col = terminal.col + 1 := rfl

theorem Inside.breakLine (inside : terminal.Inside) (blank : Cell) :
    (terminal.breakLine blank).Inside := by
  refine ⟨?_, by simp⟩
  unfold Terminal.breakLine
  split
  · assumption
  · exact inside.row

theorem Inside.write (inside : terminal.Inside) (room : terminal.col < width) (cell : Cell) :
    (terminal.write cell).Inside := ⟨inside.row, room⟩

theorem Inside.clear (inside : terminal.Inside) (blank : Cell) : (terminal.clear blank).Inside :=
  ⟨inside.row, inside.col⟩

theorem Inside.wrapLine (inside : terminal.Inside) (blank : Cell) :
    (terminal.wrapLine blank).Inside := by
  unfold Terminal.wrapLine
  split
  · exact inside.breakLine blank
  · exact inside

theorem wrapLine_col_lt (inside : terminal.Inside) (positive : 0 < width) (blank : Cell) :
    (terminal.wrapLine blank).col < width := by
  unfold wrapLine
  split
  · rw [breakLine_col]
    exact positive
  · next room => exact Nat.lt_of_le_of_ne inside.col room

/-- Whatever comes, the cursor stays on the screen. -/
theorem Inside.feed (inside : terminal.Inside) (positive : 0 < width) (symbol : Symbol) :
    (terminal.feed charset symbol).Inside := by
  unfold Terminal.feed
  split
  · exact inside.breakLine _
  · exact (inside.wrapLine _).write (wrapLine_col_lt inside positive _) _

end Terminal

end Yaeos
