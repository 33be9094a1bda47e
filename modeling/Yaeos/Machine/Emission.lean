import Yaeos.Machine.Output

/-!
# The text that is output

What a printer hands to its output function is one text, whatever the chunks
are.  `Writes` names the text of every run that is not refused; `Completes` says
that a run returns, if the output function takes every chunk.
-/

namespace Yaeos

variable {Symbol : Type}

/-- The characters of all chunks, in order. -/
def textOf (calls : List (OutputCall Symbol)) : List Symbol := calls.flatMap OutputCall.chunk

/-- A run that returns a number of characters has written the text. -/
def Writes (printer : Printer Symbol) (text : List Symbol) : Prop :=
  ∀ calls rc final, printer calls = .ok (rc, final) → 0 ≤ rc →
    ∃ new, final = calls ++ new ∧ textOf new = text

/-- Every chunk is taken as a whole. -/
def Accepts (f : OutputFn Symbol) : Prop := ∀ calls chunk, f calls chunk = chunk.length

/-- A printer that is run when a number of characters have been counted returns and has
written the text. -/
def Completes (printer : Printer Symbol) (printed : Nat) (text : List Symbol) : Prop :=
  ∀ calls, ∃ new, printer calls = .ok (↑(printed + text.length), calls ++ new) ∧ textOf new = text

variable {f : OutputFn Symbol} {printer : Printer Symbol} {rest : Nat → Printer Symbol}
  {chunk text more : List Symbol} {printed times : Nat}

@[simp]
theorem textOf_nil : textOf ([] : List (OutputCall Symbol)) = [] := rfl

@[simp]
theorem textOf_append (first second : List (OutputCall Symbol)) :
    textOf (first ++ second) = textOf first ++ textOf second := List.flatMap_append

@[simp]
theorem textOf_singleton (call : OutputCall Symbol) : textOf [call] = call.chunk := by
  simp [textOf]

theorem writes_put (f : OutputFn Symbol) (chunk : List Symbol) : Writes (put f chunk) chunk := by
  intro calls rc final returned _
  cases returned
  exact ⟨_, rfl, textOf_singleton _⟩

theorem writes_nothing (rc : Nat) : Writes (fun calls => .ok (rc, calls)) ([] : List Symbol) := by
  intro calls rc final returned _
  cases returned
  exact ⟨[], (List.append_nil _).symm, rfl⟩

theorem writes_returnPrinted (printed : Nat) :
    Writes (returnPrinted printed) ([] : List Symbol) := by
  intro calls rc final returned notNegative
  obtain ⟨_, _, returned⟩ := Outcome.bind_eq_ok.mp returned
  exact writes_nothing printed calls rc final returned notNegative

/-- The texts of a sequence follow each other. -/
theorem Writes.counted (first : Writes printer text) (second : ∀ printed, Writes (rest printed) more)
    (printed : Nat) : Writes (counted printer printed rest) (text ++ more) := by
  intro calls rc final returned notNegative
  obtain ⟨⟨count, middle⟩, printedFirst, returned⟩ := Outcome.bind_eq_ok.mp returned
  dsimp only at returned
  by_cases refused : count < 0
  · rw [if_pos refused] at returned
    cases returned
    omega
  · rw [if_neg refused] at returned
    obtain ⟨new, rfl, rfl⟩ := first calls count middle printedFirst (by omega)
    obtain ⟨others, rfl, rfl⟩ := second _ _ rc final returned notNegative
    exact ⟨new ++ others, List.append_assoc .., textOf_append ..⟩

theorem writes_putRepeatedly (f : OutputFn Symbol) (symbol : Symbol)
    (second : ∀ printed, Writes (rest printed) more) (times printed : Nat) :
    Writes (putRepeatedly f [symbol] rest times printed) (List.replicate times symbol ++ more) := by
  induction times generalizing printed with
  | zero => exact second printed
  | succ times inductionHypothesis =>
      exact (writes_put f [symbol]).counted inductionHypothesis printed

section Accepted

variable (accepts : Accepts f)
include accepts

theorem completes_put (chunk : List Symbol) : Completes (put f chunk) 0 chunk := by
  intro calls
  refine ⟨[⟨chunk, f calls chunk⟩], ?_, textOf_singleton _⟩
  rw [put, accepts, Nat.zero_add]

omit accepts in
theorem Completes.counted (first : Completes printer 0 text)
    (fits : printed + text.length < addressSpace)
    (second : Completes (rest (printed + text.length)) (printed + text.length) more) :
    Completes (counted printer printed rest) printed (text ++ more) := by
  intro calls
  obtain ⟨new, returned, rfl⟩ := first calls
  obtain ⟨others, ended, rfl⟩ := second (calls ++ new)
  refine ⟨new ++ others, ?_, textOf_append ..⟩
  have sum : wrap (printed + (Int.toNat ↑(0 + (textOf new).length))) =
      printed + (textOf new).length := by
    rw [Int.toNat_natCast, Nat.zero_add, wrap_of_lt fits]
  rw [Yaeos.counted, returned, Outcome.ok_bind]
  dsimp only
  rw [if_neg (by omega), sum, ended, List.length_append, Nat.add_assoc, List.append_assoc]

theorem completes_putRepeatedly (symbol : Symbol)
    (fits : printed + times < addressSpace)
    (second : Completes (rest (printed + times)) (printed + times) more) :
    Completes (putRepeatedly f [symbol] rest times printed) printed
      (List.replicate times symbol ++ more) := by
  induction times generalizing printed with
  | zero => exact second
  | succ times inductionHypothesis =>
      refine (completes_put accepts [symbol]).counted ?_ (inductionHypothesis ?_ ?_)
      · simp only [List.length_singleton]
        omega
      · simp only [List.length_singleton]
        omega
      · simpa only [List.length_singleton, Nat.add_assoc, Nat.add_comm 1] using second

end Accepted

/-- An output function that takes no chunk. -/
def refuseAll : OutputFn Symbol := fun _ _ => -1

/-- Every run of the printer returns a negative number. -/
def Refused (printer : Printer Symbol) : Prop :=
  ∀ calls, ∃ rc final, printer calls = .ok (rc, final) ∧ rc < 0

theorem refused_put (chunk : List Symbol) : Refused (put refuseAll chunk) :=
  fun _ => ⟨_, _, rfl, by simp [refuseAll]⟩

theorem Refused.counted (first : Refused printer) (printed : Nat) (rest : Nat → Printer Symbol) :
    Refused (counted printer printed rest) := by
  intro calls
  obtain ⟨rc, final, returned, negative⟩ := first calls
  refine ⟨rc, final, ?_, negative⟩
  rw [Yaeos.counted, returned, Outcome.ok_bind]
  exact if_pos negative

theorem refused_putRepeatedly (chunk : List Symbol) (more : ∀ printed, Refused (rest printed))
    (times printed : Nat) : Refused (putRepeatedly refuseAll chunk rest times printed) := by
  cases times with
  | zero => exact more printed
  | succ times => exact (refused_put chunk).counted printed _

end Yaeos
