import Yaeos.Machine.Outcome
import Mathlib.Tactic.Common

/-!
# Cursor loops

A cursor goes on from `c` to `next c` as long as it is below `stop`.  The loop comes to its
end with the cursor always growing if and only if `next` goes up from every place that it
reaches.
-/

namespace Yaeos

universe u

variable {State : Type u}

/-- `while (c < stop) { visit(c); c = next(c); }` -/
def cursorLoop (visit : State → Nat → Outcome State) (next : Nat → Nat) (stop : Nat) :
    (rounds : Nat) → (c : Nat) → State → Outcome State
  | 0, _, _ => .error .unfinished
  | rounds + 1, c, state =>
      if c < stop then do
        let state ← visit state c
        cursorLoop visit next stop rounds (next c) state
      else .ok state

/-- The places the loop visits, where it comes to its end. -/
def cursorTrace (next : Nat → Nat) (stop : Nat) : (rounds : Nat) → (c : Nat) → Option (List Nat)
  | 0, _ => none
  | rounds + 1, c =>
      if c < stop then (cursorTrace next stop rounds (next c)).map (c :: ·) else some []

/-- The loop that starts at the first place gets to the second. -/
inductive CursorReaches (next : Nat → Nat) (stop : Nat) : Nat → Nat → Prop
  | here {c : Nat} (below : c < stop) : CursorReaches next stop c c
  | there {c place : Nat} (below : c < stop) (later : CursorReaches next stop (next c) place) :
      CursorReaches next stop c place

variable {visit : State → Nat → Outcome State} {next : Nat → Nat} {stop rounds c place : Nat}
  {places : List Nat} {state : State}

theorem CursorReaches.lt_stop (reaches : CursorReaches next stop c place) : place < stop := by
  induction reaches with
  | here below => exact below
  | there _ _ inductionHypothesis => exact inductionHypothesis

theorem cursorTrace_cons (below : c < stop)
    (traced : cursorTrace next stop (rounds + 1) c = some places) :
    ∃ later, cursorTrace next stop rounds (next c) = some later ∧ places = c :: later := by
  rw [cursorTrace, if_pos below, Option.map_eq_some_iff] at traced
  obtain ⟨later, traced, rfl⟩ := traced
  exact ⟨later, traced, rfl⟩

/-- A trace begins where the loop does. -/
theorem cursorTrace_head (below : c < stop) (traced : cursorTrace next stop rounds c = some places) :
    c ∈ places := by
  cases rounds with
  | zero => cases traced
  | succ rounds =>
      obtain ⟨later, -, rfl⟩ := cursorTrace_cons below traced
      exact List.mem_cons_self

/-- The loop does at the places of its trace what `visit` does, in order. -/
theorem cursorLoop_eq (traced : cursorTrace next stop rounds c = some places) (state : State) :
    cursorLoop visit next stop rounds c state = places.foldlM visit state := by
  induction rounds generalizing c places state with
  | zero => cases traced
  | succ rounds inductionHypothesis =>
      by_cases below : c < stop
      · obtain ⟨later, rest, rfl⟩ := cursorTrace_cons below traced
        rw [cursorLoop, if_pos below, List.foldlM_cons]
        exact congrArg _ (funext fun state => inductionHypothesis rest state)
      · rw [cursorTrace, if_neg below, Option.some.injEq] at traced
        subst traced
        rw [cursorLoop, if_neg below]
        rfl

/-- A place that comes after itself is never left. -/
theorem cursorLoop_stuck (below : c < stop) (stuck : next c = c) (rounds : Nat) (state after : State) :
    cursorLoop visit next stop rounds c state ≠ .ok after := by
  induction rounds generalizing state with
  | zero => exact nofun
  | succ rounds inductionHypothesis =>
      rw [cursorLoop, if_pos below, stuck]
      intro returned
      obtain ⟨visited, -, returned⟩ := Outcome.bind_eq_ok.mp returned
      exact inductionHypothesis visited returned

/-- The distance to the end bounds the rounds of a cursor that always grows. -/
theorem cursorTrace_of_grows (grows : ∀ place, CursorReaches next stop c place → place < next place)
    (enough : stop - c < rounds) : ∃ places, cursorTrace next stop rounds c = some places ∧
      places.Pairwise (· < ·) ∧ ∀ place ∈ places, c ≤ place ∧ place < stop := by
  induction rounds generalizing c with
  | zero => omega
  | succ rounds inductionHypothesis =>
      by_cases below : c < stop
      · have grown : c < next c := grows c (.here below)
        obtain ⟨later, traced, increasing, inside⟩ :=
          inductionHypothesis (c := next c) (fun place later => grows place (.there below later))
            (by omega)
        refine ⟨c :: later, by rw [cursorTrace, if_pos below, traced]; rfl, ?_, ?_⟩
        · refine List.pairwise_cons.mpr ⟨fun place member => ?_, increasing⟩
          exact Nat.lt_of_lt_of_le grown (inside place member).1
        · intro place member
          rcases List.mem_cons.mp member with rfl | member
          · exact ⟨Nat.le_refl _, below⟩
          · exact ⟨Nat.le_trans (Nat.le_of_lt grown) (inside place member).1,
              (inside place member).2⟩
      · exact ⟨[], by rw [cursorTrace, if_neg below], .nil, nofun⟩

/-- A trace in which the cursor grows is one in which it grows at every place. -/
theorem grows_of_cursorTrace (traced : cursorTrace next stop rounds c = some places)
    (increasing : places.Pairwise (· < ·)) (reaches : CursorReaches next stop c place) :
    place < next place := by
  induction reaches generalizing rounds places with
  | @here c below =>
      cases rounds with
      | zero => cases traced
      | succ rounds =>
          obtain ⟨later, rest, rfl⟩ := cursorTrace_cons below traced
          by_cases again : next c < stop
          · exact (List.pairwise_cons.mp increasing).1 _ (cursorTrace_head again rest)
          · omega
  | @there c place below _ inductionHypothesis =>
      cases rounds with
      | zero => cases traced
      | succ rounds =>
          obtain ⟨later, rest, rfl⟩ := cursorTrace_cons below traced
          exact inductionHypothesis rest (List.pairwise_cons.mp increasing).2

/-- The loop ends and only grows if and only if `next` goes up wherever the loop gets to. -/
theorem cursorTrace_iff : (∃ rounds places, cursorTrace next stop rounds c = some places ∧
      places.Pairwise (· < ·) ∧ ∀ place ∈ places, c ≤ place ∧ place < stop) ↔
    ∀ place, CursorReaches next stop c place → place < next place := by
  constructor
  · rintro ⟨rounds, places, traced, increasing, -⟩ place reaches
    exact grows_of_cursorTrace traced increasing reaches
  · intro grows
    exact ⟨stop - c + 1, cursorTrace_of_grows grows (Nat.lt_succ_self _)⟩

end Yaeos
