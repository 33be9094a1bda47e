import Yaeos.Machine.Outcome
import Yaeos.Machine.Run
import Mathlib.Data.Nat.ModEq
import Mathlib.Data.List.Infix

/-!
# Circular buffers (`lib/ds/cbuffer.h`)

The macros work on an array whose length is part of its type.  The indices stay
below that length and `count` does not exceed it, so that no `size_t` sum on them
wraps.  `CBuffer.contents` reads the stored values from the oldest one on; the
operations are described by what they do to it.
-/

namespace Yaeos

/-- `CBUFFER_DECLARE`. -/
structure CBuffer (Value : Type) (length : Nat) where
  rIdx : Nat
  wIdx : Nat
  count : Nat
  array : Vector Value length
  deriving DecidableEq, Repr

variable {Value : Type} {length : Nat}

/-- `CBUFFER_INIT`; `zero` is the value all of whose bytes are zero. -/
def cbufferInit (zero : Value) (length : Nat) : CBuffer Value length where
  rIdx := 0
  wIdx := 0
  count := 0
  array := Vector.replicate length zero

namespace CBuffer

/-- `CBUFFER_NEXT_WIDX`. -/
def nextWidx (cbuffer : CBuffer Value length) : Nat := (cbuffer.wIdx + 1) % length

/-- `CBUFFER_NEXT_RIDX`. -/
def nextRidx (cbuffer : CBuffer Value length) : Nat := (cbuffer.rIdx + 1) % length

/-- `array[index] = value`. -/
def store (cbuffer : CBuffer Value length) (index : Nat) (value : Value) :
    Outcome (CBuffer Value length) :=
  if inside : index < length then .ok { cbuffer with array := cbuffer.array.set index value inside }
  else .error .outOfBounds

/-- `array[index]`. -/
def load (cbuffer : CBuffer Value length) (index : Nat) : Outcome Value :=
  match cbuffer.array[index]? with
  | some value => .ok value
  | none => .error .outOfBounds

end CBuffer

/-- `CBUFFER_PUSH`, with the value of the statement expression. -/
def cbufferPush (cbuffer : CBuffer Value length) (value : Value) :
    Outcome (CBuffer Value length × Bool) := do
  let success := decide (cbuffer.count < length)
  if cbuffer.count = length then .ok (cbuffer, success)
  else
    let cbuffer ← cbuffer.store cbuffer.wIdx value
    let cbuffer := { cbuffer with wIdx := cbuffer.nextWidx }
    let cbuffer := { cbuffer with count := cbuffer.count + 1 }
    .ok (cbuffer, success)

/-- `CBUFFER_POP`, with the value that `dest` receives. -/
def cbufferPop (cbuffer : CBuffer Value length) (defaultval : Value) :
    Outcome (CBuffer Value length × Value) := do
  if cbuffer.count = 0 then .ok (cbuffer, defaultval)
  else
    let dest ← cbuffer.load cbuffer.rIdx
    let cbuffer := { cbuffer with rIdx := cbuffer.nextRidx }
    let cbuffer := { cbuffer with count := cbuffer.count - 1 }
    .ok (cbuffer, dest)

namespace CBuffer

variable {cbuffer : CBuffer Value length} {value : Value}

/-- The stored values, the oldest one first. -/
def contents (cbuffer : CBuffer Value length) : List Value :=
  (List.range cbuffer.count).filterMap fun offset =>
    cbuffer.array[(cbuffer.rIdx + offset) % length]?

/-- The indices agree modulo the length. -/
structure Ok (cbuffer : CBuffer Value length) : Prop where
  reads : cbuffer.rIdx < length
  fits : cbuffer.count ≤ length
  writes : cbuffer.wIdx = (cbuffer.rIdx + cbuffer.count) % length

theorem cbufferInit_ok (zero : Value) (positive : 0 < length) : (cbufferInit zero length).Ok where
  reads := positive
  fits := Nat.zero_le _
  writes := (Nat.zero_mod _).symm

@[simp]
theorem contents_cbufferInit (zero : Value) : (cbufferInit zero length).contents = [] := rfl

/-- Every offset below `count` has a slot. -/
theorem Ok.length_contents (ok : cbuffer.Ok) : cbuffer.contents.length = cbuffer.count := by
  have positive : 0 < length := Nat.lt_of_le_of_lt (Nat.zero_le _) ok.reads
  have slots : ∀ offset ∈ List.range cbuffer.count,
      (cbuffer.array[(cbuffer.rIdx + offset) % length]?).isSome := by
    intro offset _
    rw [Vector.getElem?_eq_getElem (Nat.mod_lt _ positive)]
    rfl
  rw [contents, List.length_filterMap_eq_countP, List.countP_eq_length.mpr slots, List.length_range]

/-- Offsets of less than one turn name different slots. -/
theorem slot_injective {start first second : Nat} (firstBelow : first < length)
    (secondBelow : second < length)
    (same : (start + first) % length = (start + second) % length) : first = second :=
  Nat.ModEq.eq_of_lt_of_lt (Nat.ModEq.add_left_cancel' start same) firstBelow secondBelow

theorem Ok.push (ok : cbuffer.Ok) (room : cbuffer.count < length) (value : Value) :
    ∃ next, cbufferPush cbuffer value = .ok (next, true) ∧ next.Ok ∧
      next.contents = cbuffer.contents ++ [value] := by
  have positive : 0 < length := Nat.lt_of_le_of_lt (Nat.zero_le _) room
  have inside : cbuffer.wIdx < length := by
    rw [ok.writes]
    exact Nat.mod_lt _ positive
  refine ⟨⟨cbuffer.rIdx, cbuffer.nextWidx, cbuffer.count + 1,
    cbuffer.array.set cbuffer.wIdx value inside⟩, ?_, ⟨ok.reads, room, ?_⟩, ?_⟩
  · simp [cbufferPush, store, nextWidx, room, room.ne, inside]
  · show cbuffer.nextWidx = (cbuffer.rIdx + (cbuffer.count + 1)) % length
    rw [nextWidx, ok.writes, Nat.mod_add_mod, Nat.add_assoc]
  · have last : (cbuffer.array.set cbuffer.wIdx value inside)[(cbuffer.rIdx + cbuffer.count) %
        length]? = some value := by
      rw [← ok.writes, Vector.getElem?_set_self]
    have others : ∀ offset ∈ List.range cbuffer.count,
        (cbuffer.array.set cbuffer.wIdx value inside)[(cbuffer.rIdx + offset) % length]? =
          cbuffer.array[(cbuffer.rIdx + offset) % length]? := by
      intro offset member
      have below := List.mem_range.mp member
      apply Vector.getElem?_set_ne
      rw [ok.writes]
      intro same
      have equal := slot_injective room (below.trans room) same
      omega
    simp only [contents, List.range_succ, List.filterMap_append, List.filterMap_cons, last,
      List.filterMap_nil, List.filterMap_congr others]

theorem push_full (full : cbuffer.count = length) (value : Value) :
    cbufferPush cbuffer value = .ok (cbuffer, false) := by
  simp [cbufferPush, full]

theorem pop_empty (empty : cbuffer.count = 0) (defaultval : Value) :
    cbufferPop cbuffer defaultval = .ok (cbuffer, defaultval) := by
  simp [cbufferPop, empty]

theorem Ok.pop (ok : cbuffer.Ok) (stored : 0 < cbuffer.count) (defaultval : Value) :
    ∃ next oldest, cbufferPop cbuffer defaultval = .ok (next, oldest) ∧ next.Ok ∧
      cbuffer.contents = oldest :: next.contents := by
  obtain ⟨count, counted⟩ : ∃ count, cbuffer.count = count + 1 := ⟨cbuffer.count - 1, by omega⟩
  have positive : 0 < length := Nat.lt_of_le_of_lt (Nat.zero_le _) ok.reads
  obtain ⟨oldest, read⟩ : ∃ oldest, cbuffer.array[cbuffer.rIdx]? = some oldest :=
    ⟨_, Vector.getElem?_eq_getElem ok.reads⟩
  refine ⟨⟨cbuffer.nextRidx, cbuffer.wIdx, count, cbuffer.array⟩, oldest, ?_,
    ⟨Nat.mod_lt _ positive, ?_, ?_⟩, ?_⟩
  · simp [cbufferPop, load, nextRidx, counted, read]
  · show count ≤ length
    have fits := ok.fits
    omega
  · show cbuffer.wIdx = (cbuffer.nextRidx + count) % length
    rw [ok.writes, nextRidx, Nat.mod_add_mod, counted, Nat.add_assoc, Nat.add_comm 1 count]
  · have first : cbuffer.array[(cbuffer.rIdx + 0) % length]? = some oldest := by
      rw [Nat.add_zero, Nat.mod_eq_of_lt ok.reads, read]
    have shifted : ∀ offset, (cbuffer.nextRidx + offset) % length =
        (cbuffer.rIdx + (offset + 1)) % length := by
      intro offset
      rw [nextRidx, Nat.mod_add_mod, Nat.add_assoc, Nat.add_comm 1 offset]
    simp only [contents, counted, List.range_succ_eq_map, List.filterMap_cons, first,
      List.filterMap_map, Function.comp_def, shifted, Nat.succ_eq_add_one]

end CBuffer

end Yaeos
