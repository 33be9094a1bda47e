import Yaeos.Machine.Loop
import Mathlib.Data.List.Basic

/-!
# Arrays as lists of slots

An access past the end of an array faults.  A loop that visits every index and
changes nothing but the slot it is at maps the array.
-/

namespace Yaeos

universe u

variable {Slot State : Type u}

/-- `array[index]`. -/
def readSlot (array : List Slot) (index : Nat) : Outcome Slot :=
  match array[index]? with
  | some slot => .ok slot
  | none => .error .outOfBounds

/-- `array[index] = value`. -/
def writeSlot (array : List Slot) (index : Nat) (value : Slot) : Outcome (List Slot) :=
  if index < array.length then .ok (array.set index value) else .error .outOfBounds

theorem readSlot_eq_ok {array : List Slot} {index : Nat} {slot : Slot} :
    readSlot array index = .ok slot ↔ array[index]? = some slot := by
  unfold readSlot
  split <;> simp_all

theorem writeSlot_ok {array : List Slot} {index : Nat} (inside : index < array.length)
    (value : Slot) : writeSlot array index value = .ok (array.set index value) := if_pos inside

theorem getElem?_set_map (array : List Slot) (change : Slot → Slot) {index : Nat} {slot : Slot}
    (read : array[index]? = some slot) (place : Nat) :
    (array.set index (change slot))[place]? =
      if place = index then array[place]?.map change else array[place]? := by
  rw [List.getElem?_set]
  by_cases same : place = index
  · subst same
    have inside := (List.getElem?_eq_some_iff.mp read).1
    rw [read]
    simp [inside]
  · simp [same, Ne.symm same]

/-- Each round reads one slot of the array the loop found and maps it. -/
theorem Loop.map_slots {body : State → Nat → Outcome State} (slots : State → List Slot)
    (change : Slot → Slot) (Frame : State → Prop) {start : State} (frame : Frame start)
    (round : ∀ index slot state, slot ∈ slots start → Frame state →
      (slots state)[index]? = some slot → ∃ next, body state index = .ok next ∧
        slots next = (slots state).set index (change slot) ∧ Frame next) :
    ∃ final, (List.range (slots start).length).foldlM body start = .ok final ∧
      slots final = (slots start).map change ∧ Frame final := by
  -- the slots before the index are mapped, the others are as they were
  let Invariant (index : Nat) (state : State) : Prop := Frame state ∧ ∀ place : Nat,
    (slots state)[place]? =
      if place < index then ((slots start)[place]?).map change else (slots start)[place]?
  have base : Invariant 0 start := ⟨frame, fun place => by simp⟩
  have step : ∀ index < (slots start).length, ∀ state, Invariant index state →
      ∃ next, body state index = .ok next ∧ Invariant (index + 1) next := by
    rintro index below state ⟨held, mapped⟩
    have read : (slots start)[index]? = some (slots start)[index] :=
      List.getElem?_eq_getElem below
    have same : (slots state)[index]? = some (slots start)[index] := by
      rw [mapped, if_neg (Nat.lt_irrefl index), read]
    obtain ⟨next, stepped, written, nextHeld⟩ :=
      round index _ state (List.getElem_mem below) held same
    refine ⟨next, stepped, nextHeld, fun place => ?_⟩
    rw [written, getElem?_set_map _ _ same, mapped]
    by_cases equal : place = index
    · subst equal
      simp
    · have shifted : place < index + 1 ↔ place < index := by omega
      simp [equal, shifted]
  obtain ⟨final, returned, held, mapped⟩ := Loop.range_ok Invariant base step
  refine ⟨final, returned, ?_, held⟩
  apply List.ext_getElem?
  intro place
  rw [mapped, List.getElem?_map]
  split
  · rfl
  · next beyond =>
      rw [List.getElem?_eq_none (Nat.le_of_not_lt beyond)]
      rfl

end Yaeos
