import Yaeos.Machine.Outcome

/-!
# Simulation of computations

`Simulates related first second`: whenever the first computation returns, the
second one returns too, with a related result.  The rules follow the way
computations are put together, so that two builds of one program are compared
function by function.
-/

namespace Yaeos

namespace Outcome

variable {α β γ δ : Type} {related : α → β → Prop} {result : γ → δ → Prop}

def Simulates (related : α → β → Prop) (first : Outcome α) (second : Outcome β) : Prop :=
  ∀ value, first = .ok value → ∃ image, second = .ok image ∧ related value image

theorem Simulates.ok {value : α} {image : β} (holds : related value image) :
    Simulates related (.ok value) (.ok image) := by
  rintro _ ⟨⟩
  exact ⟨image, rfl, holds⟩

theorem Simulates.refl (outcome : Outcome α) :
    Simulates (fun value image => image = value) outcome outcome :=
  fun value returned => ⟨value, returned, rfl⟩

/-- A computation that stops is simulated by any other. -/
theorem Simulates.error (fault : Fault) (second : Outcome β) :
    Simulates related (.error fault) second := nofun

/-- Nothing is asked of the results. -/
theorem Simulates.unit (first : Outcome Unit) :
    Simulates (fun _ _ => True) first (.ok ()) := fun _ _ => ⟨(), rfl, trivial⟩

theorem Simulates.bind {first : Outcome α} {second : Outcome β} {rest : α → Outcome γ}
    {rest' : β → Outcome δ} (one : Simulates related first second)
    (two : ∀ value image, related value image → Simulates result (rest value) (rest' image)) :
    Simulates result (first >>= rest) (second >>= rest') := by
  intro final returned
  obtain ⟨value, before, after⟩ := bind_eq_ok.mp returned
  obtain ⟨image, imageBefore, holds⟩ := one value before
  obtain ⟨final', imageAfter, final_related⟩ := two value image holds final after
  exact ⟨final', bind_eq_ok.mpr ⟨image, imageBefore, imageAfter⟩, final_related⟩

/-- Two tests of the same condition. -/
theorem Simulates.ite {condition : Prop} [Decidable condition] {yes no : Outcome α}
    {yes' no' : Outcome β} (one : condition → Simulates related yes yes')
    (two : ¬condition → Simulates related no no') :
    Simulates related (if condition then yes else no) (if condition then yes' else no') := by
  split
  · exact one ‹_›
  · exact two ‹_›

end Outcome

end Yaeos
