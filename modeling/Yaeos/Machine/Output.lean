import Yaeos.Machine.Address
import Yaeos.Machine.Outcome
import Mathlib.Algebra.BigOperators.Group.List.Basic

/-!
# Output that is counted

A printer hands chunks to an output function, which answers each of them with the
number of characters it took or with a negative number.  What an output function
answers may depend on all calls before.  `counted` is the way in which printers
are put in sequence: a negative result is returned at once, any other is added to
a count.
-/

namespace Yaeos

/-- A call of the output function: the chunk and the answer. -/
structure OutputCall (Symbol : Type) where
  chunk : List Symbol
  rc : Int
  deriving DecidableEq, Repr

/-- An output function, which knows the calls before. -/
abbrev OutputFn (Symbol : Type) : Type := List (OutputCall Symbol) → List Symbol → Int

/-- A printer returns a number and adds its calls to those before. -/
abbrev Printer (Symbol : Type) : Type :=
  List (OutputCall Symbol) → Outcome (Int × List (OutputCall Symbol))

/-- `INT_MAX`. -/
def intMax : Nat := 2 ^ 31 - 1

variable {Symbol : Type}

/-- One call of the output function. -/
def put (f : OutputFn Symbol) (chunk : List Symbol) : Printer Symbol := fun calls =>
  .ok (f calls chunk, calls ++ [⟨chunk, f calls chunk⟩])

/-- `if (rc < 0) return (rc); printed += (unsigned)rc;`, and what follows. -/
def counted (printer : Printer Symbol) (printed : Nat) (rest : Nat → Printer Symbol) : Printer Symbol :=
  fun calls => do
    let (rc, calls) ← printer calls
    if rc < 0 then .ok (rc, calls) else rest (wrap (printed + rc.toNat)) calls

/-- `kassert(printed <= INT_MAX); return ((int)printed);`. -/
def returnPrinted (printed : Nat) : Printer Symbol := fun calls => do
  kassert (printed ≤ intMax)
  .ok (printed, calls)

/-- The same chunk again and again. -/
def putRepeatedly (f : OutputFn Symbol) (chunk : List Symbol) (rest : Nat → Printer Symbol) :
    (times printed : Nat) → Printer Symbol
  | 0, printed => rest printed
  | times + 1, printed => counted (put f chunk) printed (putRepeatedly f chunk rest times)

/-- All characters that were handed to the output function. -/
def written (calls : List (OutputCall Symbol)) : Nat := (calls.map fun call => call.chunk.length).sum

/-- The whole chunk was taken. -/
def OutputCall.Accepted (call : OutputCall Symbol) : Prop := call.rc = call.chunk.length

/-- The answers are those of the output function. -/
def Answered (f : OutputFn Symbol) : List (OutputCall Symbol) → List (OutputCall Symbol) → Prop
  | _, [] => True
  | before, call :: after => call.rc = f before call.chunk ∧ Answered f (before ++ [call]) after

/-- What a result says about the calls: it is the count of their characters if all of
them were accepted, and the answer of the last call if this one is negative; all
calls before are not. -/
structure Tallied (printed : Nat) (rc : Int) (calls : List (OutputCall Symbol)) : Prop where
  accepted : (∀ call ∈ calls, call.Accepted) → printed + written calls ≤ intMax →
    rc = ↑(printed + written calls)
  refused : (∀ call ∈ calls, 0 ≤ call.rc) ∨ ∃ before call, calls = before ++ [call] ∧
    (∀ earlier ∈ before, 0 ≤ earlier.rc) ∧ call.rc < 0 ∧ rc = call.rc

/-- A printer that is run when a number of characters have been counted: it returns a
result that fits its calls unless an assertion fails. -/
def Counts (f : OutputFn Symbol) (printed : Nat) (printer : Printer Symbol) : Prop :=
  ∀ calls, printer calls = .error .kassert ∨ ∃ rc new, printer calls = .ok (rc, calls ++ new) ∧
    Answered f calls new ∧ Tallied printed rc new

variable {f : OutputFn Symbol} {printer : Printer Symbol} {rest : Nat → Printer Symbol}
  {calls before after first second : List (OutputCall Symbol)} {call : OutputCall Symbol}
  {chunk : List Symbol} {printed : Nat} {rc : Int}

@[simp]
theorem written_nil : written ([] : List (OutputCall Symbol)) = 0 := rfl

@[simp]
theorem written_append : written (first ++ second) = written first + written second := by
  simp [written]

@[simp]
theorem written_singleton : written [call] = call.chunk.length := by simp [written]

theorem answered_append :
    Answered f calls (first ++ second) ↔ Answered f calls first ∧ Answered f (calls ++ first) second := by
  induction first generalizing calls with
  | nil => simp [Answered]
  | cons call first inductionHypothesis =>
      simp only [List.cons_append, Answered, inductionHypothesis, List.append_assoc, and_assoc]
      rfl

/-- Once an answer is negative there is no further call. -/
theorem Tallied.stops (tallied : Tallied printed rc (before ++ call :: after))
    (negative : call.rc < 0) : after = [] ∧ rc = call.rc := by
  rcases tallied.refused with nonnegative | ⟨init, last, split, nonnegative, -, returned⟩
  · exact absurd (nonnegative call (by simp)) (by omega)
  · rcases List.eq_nil_or_concat' after with rfl | ⟨middle, final, rfl⟩
    · obtain ⟨-, same⟩ := List.append_inj' split rfl
      cases same
      exact ⟨rfl, returned⟩
    · have shape : (before ++ call :: middle) ++ [final] = init ++ [last] := by simpa using split
      obtain ⟨rfl, -⟩ := List.append_inj' shape rfl
      exact absurd (nonnegative call (by simp)) (by omega)

/-- A result that is not negative ends no run. -/
theorem Tallied.nonnegative (tallied : Tallied printed rc calls) (notNegative : ¬rc < 0) :
    ∀ call ∈ calls, 0 ≤ call.rc := by
  rcases tallied.refused with nonnegative | ⟨before, call, -, -, negative, rfl⟩
  · exact nonnegative
  · exact absurd negative notNegative

/-- Nothing is printed. -/
theorem Tallied.nil (printed : Nat) : Tallied printed printed ([] : List (OutputCall Symbol)) :=
  ⟨fun _ _ => by simp, .inl nofun⟩

/-- A negative result is the one of the part that was run. -/
theorem Tallied.early (tallied : Tallied 0 rc calls) (negative : rc < 0) :
    Tallied printed rc calls := by
  refine ⟨fun accepted fits => ?_, tallied.refused⟩
  have counted := tallied.accepted accepted (by omega)
  omega

/-- Two parts of a run, the first of which was not refused. -/
theorem Tallied.append {total : Int} (tallied : Tallied 0 rc first) (notNegative : ¬rc < 0)
    (next : Tallied (wrap (printed + rc.toNat)) total second) :
    Tallied printed total (first ++ second) := by
  have nonnegative := tallied.nonnegative notNegative
  refine ⟨fun accepted fits => ?_, ?_⟩
  · rw [written_append] at fits ⊢
    have counted := tallied.accepted (fun call member => accepted call (by simp [member])) (by omega)
    have small : printed + rc.toNat < addressSpace := by
      unfold intMax at fits
      unfold addressSpace
      omega
    have sum : wrap (printed + rc.toNat) = printed + written first := by
      rw [wrap_of_lt small]
      omega
    rw [sum] at next
    have all := next.accepted (fun call member => accepted call (by simp [member])) (by omega)
    omega
  · rcases next.refused with others | ⟨before, call, rfl, others, negative, returned⟩
    · exact .inl (List.forall_mem_append.mpr ⟨nonnegative, others⟩)
    · exact .inr ⟨first ++ before, call, (List.append_assoc ..).symm,
        List.forall_mem_append.mpr ⟨nonnegative, others⟩, negative, returned⟩

theorem counts_put (f : OutputFn Symbol) (chunk : List Symbol) : Counts f 0 (put f chunk) := by
  intro calls
  refine .inr ⟨f calls chunk, [⟨chunk, f calls chunk⟩], rfl, ⟨rfl, trivial⟩, fun accepted _ => ?_, ?_⟩
  · simpa [OutputCall.Accepted] using accepted
  · by_cases negative : f calls chunk < 0
    · exact .inr ⟨[], _, rfl, nofun, negative, rfl⟩
    · exact .inl (by simpa using negative)

theorem counts_returnPrinted (f : OutputFn Symbol) (printed : Nat) :
    Counts f printed (returnPrinted printed) := by
  intro calls
  by_cases fits : printed ≤ intMax
  · refine .inr ⟨printed, [], ?_, trivial, Tallied.nil printed⟩
    rw [returnPrinted, kassert_ok fits, Outcome.ok_bind, List.append_nil]
  · refine .inl ?_
    rw [returnPrinted, kassert, if_neg fits, Outcome.error_bind]

/-- The count of a sequence. -/
theorem Counts.counted (counts : Counts f 0 printer) (more : ∀ printed, Counts f printed (rest printed))
    (printed : Nat) : Counts f printed (counted printer printed rest) := by
  intro calls
  rcases counts calls with stopped | ⟨rc, new, returned, answered, tallied⟩
  · exact .inl (by rw [Yaeos.counted, stopped, Outcome.error_bind])
  · rw [Yaeos.counted, returned, Outcome.ok_bind]
    dsimp only
    by_cases negative : rc < 0
    · rw [if_pos negative]
      exact .inr ⟨rc, new, rfl, answered, tallied.early negative⟩
    · rw [if_neg negative]
      rcases more (wrap (printed + rc.toNat)) (calls ++ new) with
        stopped | ⟨total, others, ended, theirs, next⟩
      · exact .inl stopped
      · refine .inr ⟨total, new ++ others, ?_, answered_append.mpr ⟨answered, theirs⟩,
          tallied.append negative next⟩
        rw [ended, List.append_assoc]

theorem counts_putRepeatedly (f : OutputFn Symbol) (chunk : List Symbol)
    (more : ∀ printed, Counts f printed (rest printed)) (times printed : Nat) :
    Counts f printed (putRepeatedly f chunk rest times printed) := by
  induction times generalizing printed with
  | zero => exact more printed
  | succ times inductionHypothesis =>
      exact (counts_put f chunk).counted inductionHypothesis printed

end Yaeos
