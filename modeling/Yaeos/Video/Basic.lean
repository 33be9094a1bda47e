import Yaeos.Cstd.Memory
import Yaeos.Cstd.Vfprintf
import Yaeos.Machine.Terminal

/-!
# The video console (`modules/i686/video.c`)

The buffer is the memory from `STATE.buffer` on, so that nothing but the index keeps a cell
inside the screen; the indices that are written are noted.  The string of `video_write` is
the list of the bytes that may be read from its pointer on.
-/

namespace Yaeos

/-- `VIDEO_WIDTH`. -/
def videoWidth : Nat := 80

/-- `VIDEO_HEIGHT`. -/
def videoHeight : Nat := 25

/-- `struct i686_video_state`. -/
structure VideoState where
  buffer : Nat → Nat
  row : Nat
  col : Nat
  color : Nat
  /-- The indices of the cells that were written, the last one first. -/
  written : List Nat

def videoMixColor (fg bg : Nat) : Nat := (fg ||| bg <<< 4) % 2 ^ 8

def videoChar (uc color : Nat) : Nat := (color <<< 8 ||| uc) % 2 ^ 16

/-- `STATE.buffer[index] = cell`. -/
def VideoState.setCell (state : VideoState) (index cell : Nat) : VideoState :=
  { state with
    buffer := Function.update state.buffer index cell, written := index :: state.written }

def writeChar (c color x y : Nat) (state : VideoState) : VideoState :=
  let index := y * videoWidth + x
  state.setCell index (videoChar c color)

/-- The inner loop of `scroll_down`. -/
def scrollRow (state : VideoState) (y : Nat) : VideoState :=
  (List.range videoWidth).foldl (fun state x =>
    let dst := y * videoWidth + x
    let src := dst + videoWidth
    state.setCell dst (state.buffer src)) state

def scrollDown (state : VideoState) : VideoState :=
  (List.range (videoHeight - 1)).foldl scrollRow state

def breakLine (state : VideoState) : VideoState :=
  let state := { state with row := state.row + 1, col := 0 }
  if state.row ≥ videoHeight then
    let state := scrollDown state
    let state := { state with row := state.row - 1 }
    (List.range videoWidth).foldl
      (fun state x => writeChar (byteOf ' ') state.color x state.row state) state
  else state

/-- The inner loop of `video_clear`. -/
def clearRow (state : VideoState) (y : Nat) : VideoState :=
  (List.range videoWidth).foldl
    (fun state x => writeChar (byteOf ' ') state.color x y state) state

def videoClear (state : VideoState) : VideoState := (List.range videoHeight).foldl clearRow state

/-- `write_char(*str, …); state->col++;` -/
def putChar (c : Nat) (state : VideoState) : VideoState :=
  let state := writeChar c state.color state.col state.row state
  { state with col := state.col + 1 }

/-- The inner loop of `video_write`, and what is left of the string. -/
def writeChars : (w : Nat) → (str : List Nat) → VideoState → Outcome (List Nat × VideoState)
  | 0, str, state => .ok (str, state)
  | w + 1, str, state => do
      let byte ← readSlot str 0
      writeChars w str.tail (putChar byte state)

/-- The number of characters that a round writes. -/
def chunkWidth (size col : Nat) (nlPos : Option Nat) : Nat :=
  let w := min size (wrapSub videoWidth col)
  match nlPos with
  | some nlPos => min w nlPos
  | none => w

/-- One round of `video_write`. -/
def videoWriteRound (str : List Nat) (size : Nat) (state : VideoState) :
    Outcome (List Nat × Nat × VideoState) := do
  let nlPos ← Memory.kstrchr str (byteOf '\n')
  let w := chunkWidth size state.col nlPos
  let (str, state) ← writeChars w str state
  let size := size - w
  if size ≠ 0 then do
    let byte ← readSlot str 0
    let (str, size) := if byte = byteOf '\n' then (str.tail, size - 1) else (str, size)
    .ok (str, size, breakLine state)
  else .ok (str, size, state)

def videoWrite : (rounds : Nat) → (str : List Nat) → (size : Nat) → VideoState → Outcome VideoState
  | 0, _, _, _ => .error .unfinished
  | rounds + 1, str, size, state =>
      if size > 0 then do
        let (str, size, state) ← videoWriteRound str size state
        videoWrite rounds str size state
      else .ok state

/-- What `video_load` sets `STATE` to, over the memory from the buffer on. -/
def videoLoaded (buffer : Nat → Nat) : VideoState where
  buffer := buffer
  row := 0
  col := 0
  color := videoMixColor 15 0
  written := []

/-- The structure of a console without its name and `clear`. -/
structure Console where
  write : Option (List Nat → Nat → VideoState → Outcome VideoState)
  data : VideoState

def consoleWrite (msg : List Nat) (len : Nat) (consoles : List Console) : Outcome (List Console) :=
  consoles.mapM fun c =>
    match c.write with
    | some write => do .ok { c with data := ← write msg len c.data }
    | none => .ok c

end Yaeos
