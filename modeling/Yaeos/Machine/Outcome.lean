import Mathlib.Logic.Basic

/-!
# Outcomes of kernel code

Every modelled function either returns or stops the kernel.  The ways it can
stop are the constructors of `Fault`; the first one is the failure of a
`kassert`.  A call that returns is `.ok`, so a statement about the result of a
call is also a statement that none of the assertions on its way failed.
-/

namespace Yaeos

universe u v

/-- The ways in which a run of kernel code ends without returning. -/
inductive Fault where
  /-- The condition of a `kassert` or an `rkassert` is false. -/
  | kassert
  /-- `NULL` is dereferenced. -/
  | nullDeref
  /-- An access lies outside the object it is made through. -/
  | outOfBounds
  /-- `LOGF_P`: the message is printed and the kernel stops. -/
  | panic
  /-- A loop or a recursion used up the number of steps it was given. -/
  | unfinished
  deriving DecidableEq, Repr

/-- What a call produces. -/
abbrev Outcome (α : Type u) : Type u := Except Fault α

/-- `kassert(condition)`. -/
def kassert (condition : Prop) [Decidable condition] : Outcome Unit :=
  if condition then .ok () else .error .kassert

/-- The object a pointer names; following `NULL` is a fault. -/
def deref {α : Type u} : Option α → Outcome α
  | some object => .ok object
  | none => .error .nullDeref

namespace Outcome

variable {α : Type u} {β : Type u}

@[simp]
theorem ok_bind (value : α) (rest : α → Outcome β) :
    ((.ok value : Outcome α) >>= rest) = rest value := rfl

@[simp]
theorem error_bind (fault : Fault) (rest : α → Outcome β) :
    ((.error fault : Outcome α) >>= rest) = .error fault := rfl

@[simp]
theorem pure_eq_ok (value : α) : (pure value : Outcome α) = .ok value := rfl

/-- A sequence returns exactly when its first part returns and the rest does. -/
theorem bind_eq_ok {first : Outcome α} {rest : α → Outcome β} {result : β} :
    (first >>= rest) = .ok result ↔ ∃ value, first = .ok value ∧ rest value = .ok result := by
  cases first with
  | error fault => simp
  | ok value => simp

theorem toOption_eq_some {outcome : Outcome α} {value : α} :
    outcome.toOption = some value ↔ outcome = .ok value := by
  cases outcome <;> simp [Except.toOption]

theorem map_eq_ok {outcome : Outcome α} {function : α → β} {result : β}
    (mapped : outcome.map function = .ok result) :
    ∃ value, outcome = .ok value ∧ function value = result := by
  cases outcome with
  | error fault => cases mapped
  | ok value => exact ⟨value, rfl, Except.ok.inj mapped⟩

/-- A fault is not touched by what is done with a result. -/
theorem map_eq_error {outcome : Outcome α} {function : α → β} {fault : Fault}
    (stopped : outcome.map function = .error fault) : outcome = .error fault := by
  cases outcome with
  | error other => exact congrArg _ (Except.error.inj stopped)
  | ok value => cases stopped

@[simp]
theorem map_ok (function : α → β) (value : α) :
    (function <$> (.ok value : Outcome α)) = .ok (function value) := rfl

/-- The second computation returns whatever the first one returns: the order in
which a computation with a bound on its loops grows with the bound. -/
def Extends (first second : Outcome α) : Prop := ∀ value, first = .ok value → second = .ok value

theorem Extends.refl (outcome : Outcome α) : Extends outcome outcome := fun _ returned => returned

theorem Extends.error (fault : Fault) (second : Outcome α) : Extends (.error fault) second := nofun

theorem Extends.bind {first first' : Outcome α} {rest rest' : α → Outcome β}
    (one : Extends first first') (two : ∀ value, Extends (rest value) (rest' value)) :
    Extends (first >>= rest) (first' >>= rest') := by
  intro result returned
  obtain ⟨value, before, after⟩ := bind_eq_ok.mp returned
  exact bind_eq_ok.mpr ⟨value, one value before, two value result after⟩

/-- The same first step, and then more. -/
theorem Extends.seq (first : Outcome α) {rest rest' : α → Outcome β}
    (two : ∀ value, Extends (rest value) (rest' value)) :
    Extends (first >>= rest) (first >>= rest') := (Extends.refl first).bind two

theorem Extends.ite {condition : Prop} [Decidable condition] {yes yes' no no' : Outcome α}
    (one : Extends yes yes') (two : Extends no no') :
    Extends (if condition then yes else no) (if condition then yes' else no') := by
  split
  · exact one
  · exact two

end Outcome

@[simp]
theorem kassert_eq_ok {condition : Prop} [Decidable condition] {value : Unit} :
    kassert condition = .ok value ↔ condition := by
  unfold kassert
  split <;> simp_all

theorem kassert_ok {condition : Prop} [Decidable condition] (holds : condition) :
    kassert condition = .ok () := kassert_eq_ok.mpr holds

theorem kassert_error {condition : Prop} [Decidable condition] (fails : ¬condition) :
    kassert condition = .error .kassert := if_neg fails

@[simp]
theorem kassert_true [Decidable True] : kassert True = .ok () := kassert_ok trivial

@[simp]
theorem kassert_false [Decidable False] : kassert False = .error .kassert := kassert_error id

@[simp]
theorem deref_some {α : Type u} (object : α) : deref (some object) = .ok object := rfl

@[simp]
theorem deref_none {α : Type u} : deref (none : Option α) = .error .nullDeref := rfl

theorem deref_eq_ok {α : Type u} {pointer : Option α} {object : α} :
    deref pointer = .ok object ↔ pointer = some object := by
  cases pointer <;> simp

end Yaeos
