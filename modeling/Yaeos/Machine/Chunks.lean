import Yaeos.Machine.Output

/-!
# What every chunk is

A property of the chunks that a printer hands to its output function, whatever the answers.
-/

namespace Yaeos

variable {Symbol Value : Type}

/-- Every chunk that the printer adds to the calls has the property. -/
def Passes (P : List Symbol → Prop) (printer : Printer Symbol) : Prop :=
  ∀ calls rc final, printer calls = .ok (rc, final) → (∀ call ∈ calls, P call.chunk) →
    ∀ call ∈ final, P call.chunk

variable {P : List Symbol → Prop} {f : OutputFn Symbol} {printer : Printer Symbol}
  {rest : Nat → Printer Symbol} {chunk : List Symbol}

theorem passes_put (f : OutputFn Symbol) (holds : P chunk) : Passes P (put f chunk) := by
  intro calls rc final returned before
  cases returned
  exact List.forall_mem_append.mpr ⟨before, List.forall_mem_singleton.mpr holds⟩

theorem passes_nothing (rc : Int) : Passes P fun calls => .ok (rc, calls) := by
  intro calls rc final returned before
  cases returned
  exact before

/-- What is computed before has no chunks. -/
theorem Passes.after {outcome : Outcome Value} {printers : Value → Printer Symbol}
    (passes : ∀ value, outcome = .ok value → Passes P (printers value)) :
    Passes P fun calls => outcome >>= fun value => printers value calls := by
  intro calls rc final returned before
  obtain ⟨value, computed, returned⟩ := Outcome.bind_eq_ok.mp returned
  exact passes value computed calls rc final returned before

theorem passes_returnPrinted (printed : Nat) :
    Passes P (returnPrinted printed : Printer Symbol) :=
  Passes.after fun _ _ => passes_nothing _

theorem Passes.counted (passes : Passes P printer) (more : ∀ printed, Passes P (rest printed))
    (printed : Nat) : Passes P (counted printer printed rest) := by
  intro calls rc final returned before
  obtain ⟨⟨count, middle⟩, first, returned⟩ := Outcome.bind_eq_ok.mp returned
  have between := passes calls count middle first before
  dsimp only at returned
  split at returned
  · cases returned
    exact between
  · exact more _ middle rc final returned between

theorem passes_putRepeatedly (holds : P chunk) (more : ∀ printed, Passes P (rest printed))
    (times printed : Nat) : Passes P (putRepeatedly f chunk rest times printed) := by
  induction times generalizing printed with
  | zero => exact more printed
  | succ times inductionHypothesis => exact (passes_put f holds).counted inductionHypothesis printed

end Yaeos
