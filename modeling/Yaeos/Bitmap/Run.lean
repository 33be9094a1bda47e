import Yaeos.Bitmap.Memory
import Yaeos.Machine.Run
import Mathlib.Order.Bounds.Basic

/-!
# Runs over a bitmap

The value of an index is the last one the calls of a run gave to it.  The search
looks for the least index with the value `false`; whether the last word is in
use as a whole makes no difference to it.
-/

namespace Yaeos

/-- `bitmap_search_false` with the place its result is written to. -/
def bitmapSearchFalseInto (bitmap : Bitmap) (result : Nat) : Bool × Nat :=
  match bitmapSearchFalse bitmap with
  | some index => (true, index)
  | none => (false, result)

inductive BitmapCall where
  | setTrue (index : Nat)
  | setFalse (index : Nat)
  deriving DecidableEq, Repr

namespace BitmapCall

/-- The index a call changes. -/
def index : BitmapCall → Nat
  | setTrue index => index
  | setFalse index => index

/-- The value the index gets. -/
def value : BitmapCall → Bool
  | setTrue _ => true
  | setFalse _ => false

end BitmapCall

/-- The last value the calls gave to every index. -/
def lastSet (calls : List BitmapCall) : Nat → Bool :=
  calls.foldl (fun values call => Function.update values call.index call.value) fun _ => false

theorem lastSet_snoc (calls : List BitmapCall) (call : BitmapCall) :
    lastSet (calls ++ [call]) = Function.update (lastSet calls) call.index call.value := by
  simp [lastSet]

/-- What a search over the first `length` indices answers, and what it leaves in `result`. -/
structure Searched (values : Nat → Bool) (length result : Nat) (answer : Bool × Nat) : Prop where
  least : answer.1 = true → IsLeast {index | index < length ∧ values index = false} answer.2
  full : answer.1 = false ↔ ∀ index < length, values index = true
  unchanged : answer.1 = false → answer.2 = result

namespace Bitmap

variable {bitmap next : Bitmap} {length : Nat} {values : Nat → Bool}

def call (bitmap : Bitmap) : BitmapCall → Outcome Bitmap
  | .setTrue index => bitmapSetTrue bitmap index
  | .setFalse index => bitmapSetFalse bitmap index

/-- The bits of the bitmap are the values. -/
structure Holds (bitmap : Bitmap) (length : Nat) (values : Nat → Bool) : Prop where
  length_eq : bitmap.length = length
  bit_eq : ∀ index < length, bitmap.bit index = values index

theorem Holds.assign (holds : bitmap.Holds length values) {next : Bitmap} {index : Nat} {value : Bool}
    (nextLength : next.length = bitmap.length)
    (bits : ∀ other, next.bit other = if other = index then value else bitmap.bit other) :
    next.Holds length (Function.update values index value) where
  length_eq := nextLength.trans holds.length_eq
  bit_eq other below := by rw [bits, holds.bit_eq other below, Function.update_apply]

theorem Holds.call (holds : bitmap.Holds length values) {call : BitmapCall}
    (inside : call.index < length) :
    ∃ next, bitmap.call call = .ok next ∧
      next.Holds length (Function.update values call.index call.value) := by
  rw [← holds.length_eq] at inside
  cases call with
  | setTrue index =>
      obtain ⟨next, returned, nextLength, bits⟩ := setTrue_eq inside
      exact ⟨next, returned, holds.assign nextLength bits⟩
  | setFalse index =>
      obtain ⟨next, returned, nextLength, bits⟩ := setFalse_eq inside
      exact ⟨next, returned, holds.assign nextLength bits⟩

theorem Holds.get_eq (holds : bitmap.Holds length values) {index : Nat} (inside : index < length) :
    bitmapGet bitmap index = .ok (values index) := by
  rw [Bitmap.get_eq (holds.length_eq.symm ▸ inside), holds.bit_eq index inside]

theorem Holds.searched (holds : bitmap.Holds length values) (result : Nat) :
    Searched values length result (bitmapSearchFalseInto bitmap result) := by
  obtain ⟨rfl, bit_eq⟩ := holds
  have spec := searchFalse_spec bitmap
  unfold bitmapSearchFalseInto
  cases found : bitmapSearchFalse bitmap with
  | none =>
      rw [found] at spec
      refine ⟨nofun, ⟨fun _ index below => ?_, fun _ => rfl⟩, fun _ => rfl⟩
      rw [← bit_eq index below]
      exact spec index below
  | some index =>
      rw [found] at spec
      obtain ⟨inside, clear, before⟩ := spec
      refine ⟨fun _ => ⟨⟨inside, ?_⟩, ?_⟩, ⟨nofun, fun full => ?_⟩, nofun⟩
      · rw [← bit_eq index inside]
        exact clear
      · rintro other ⟨below, free⟩
        by_contra earlier
        have set := before other (Nat.lt_of_not_le earlier)
        rw [bit_eq other below, free] at set
        cases set
      · have set := full index inside
        rw [← bit_eq index inside, clear] at set
        cases set

end Bitmap

/-- The runs of changes from `bitmap_init` on. -/
def bitmapMachine (length : Nat) : Machine Bitmap BitmapCall where
  initial bitmap := Sizable length ∧ ∃ space memory, bitmapInit space memory length = .ok bitmap
  step bitmap call next := call.index < length ∧ bitmap.call call = .ok next

namespace Bitmap

theorem holds_of_initial {bitmap : Bitmap} {length : Nat}
    (start : (bitmapMachine length).initial bitmap) : bitmap.Holds length (lastSet []) := by
  obtain ⟨-, space, memory, initialised⟩ := start
  obtain ⟨-, length_eq, clear⟩ := init_eq initialised
  exact ⟨length_eq, clear⟩

theorem holds_of_trace {start final : Bitmap} {length : Nat} {calls : List BitmapCall}
    (fresh : (bitmapMachine length).initial start)
    (trace : (bitmapMachine length).Trace start calls final) :
    final.Holds length (lastSet calls) := by
  induction trace with
  | nil => exact holds_of_initial fresh
  | @snoc calls state call next _ stepped inductionHypothesis =>
      obtain ⟨inside, called⟩ := stepped
      obtain ⟨other, returned, holds⟩ := inductionHypothesis.call inside
      rw [called, Except.ok.injEq] at returned
      subst returned
      rw [lastSet_snoc]
      exact holds

/-- After every run the calls below the length return, `bitmap_get` reads the last
value of an index, and the search finds the least index whose last value is `false`. -/
theorem run_values {start final : Bitmap} {length : Nat} {calls : List BitmapCall}
    (fresh : (bitmapMachine length).initial start)
    (trace : (bitmapMachine length).Trace start calls final) :
    (∀ call : BitmapCall, call.index < length → ∃ next, final.call call = .ok next) ∧
      (∀ index < length, bitmapGet final index = .ok (lastSet calls index)) ∧
      ∀ result, Searched (lastSet calls) length result (bitmapSearchFalseInto final result) := by
  have holds := holds_of_trace fresh trace
  refine ⟨fun call inside => ?_, fun index inside => holds.get_eq inside, holds.searched⟩
  obtain ⟨next, returned, -⟩ := holds.call inside
  exact ⟨next, returned⟩

/-- Of 33 bits in memory that was not clear, the first is set, and cleared again after the last. -/
theorem run_values_three : ∃ start final,
    (bitmapMachine 33).Trace start [.setTrue 0, .setTrue 32, .setFalse 0] final ∧
      bitmapGet final 32 = .ok true ∧ bitmapGet final 0 = .ok false := by
  obtain ⟨start, initialised⟩ : ∃ start,
      bitmapInit 4096 [0xffffffff, 0xffffffff] 33 = .ok start := ⟨_, rfl⟩
  have fresh : (bitmapMachine 33).initial start := ⟨by decide, _, _, initialised⟩
  obtain ⟨first, called⟩ := (run_values fresh .nil).1 (.setTrue 0) (by decide)
  have trace : (bitmapMachine 33).Trace start [.setTrue 0] first := .snoc .nil ⟨by decide, called⟩
  obtain ⟨second, called⟩ := (run_values fresh trace).1 (.setTrue 32) (by decide)
  have trace := trace.snoc ⟨by decide, called⟩
  obtain ⟨third, called⟩ := (run_values fresh trace).1 (.setFalse 0) (by decide)
  have trace := trace.snoc ⟨by decide, called⟩
  obtain ⟨-, values, -⟩ := run_values fresh trace
  exact ⟨start, third, trace, values 32 (by decide), values 0 (by decide)⟩

end Bitmap

end Yaeos
