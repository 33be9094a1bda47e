import Yaeos.Machine.Outcome
import Mathlib.Tactic.Common

/-!
# Counting loops and loops over lists

`for (i = 0; i < n; i++)` is a monadic fold over `List.range n`.  Its two rules
carry an invariant indexed by the number of finished rounds: one for a loop
whose rounds are known to return, one for a loop that is known to have returned.
A loop over a list has an invariant indexed by the part of the list that is left.
-/

namespace Yaeos.Loop

universe u

variable {State : Type u} {body : State → Nat → Outcome State}
  (Invariant : Nat → State → Prop) {start : State}

theorem range_ok {rounds : Nat} (base : Invariant 0 start)
    (round : ∀ index < rounds, ∀ state, Invariant index state →
      ∃ next, body state index = .ok next ∧ Invariant (index + 1) next) :
    ∃ final, (List.range rounds).foldlM body start = .ok final ∧ Invariant rounds final := by
  induction rounds with
  | zero => exact ⟨start, rfl, base⟩
  | succ rounds inductionHypothesis =>
      obtain ⟨state, returned, holds⟩ := inductionHypothesis fun index below =>
        round index (Nat.lt_succ_of_lt below)
      obtain ⟨next, stepped, nextHolds⟩ := round rounds (Nat.lt_succ_self rounds) state holds
      exact ⟨next, by simp [List.range_succ, returned, stepped], nextHolds⟩

theorem range_of_ok {rounds : Nat} {final : State}
    (returned : (List.range rounds).foldlM body start = .ok final) (base : Invariant 0 start)
    (round : ∀ index < rounds, ∀ state next, Invariant index state →
      body state index = .ok next → Invariant (index + 1) next) :
    Invariant rounds final := by
  induction rounds generalizing final with
  | zero =>
      cases returned
      exact base
  | succ rounds inductionHypothesis =>
      simp only [List.range_succ, List.foldlM_append, List.foldlM_cons, List.foldlM_nil,
        Outcome.bind_eq_ok, Outcome.pure_eq_ok, Except.ok.injEq] at returned
      obtain ⟨state, first, last, stepped, rfl⟩ := returned
      exact round rounds (Nat.lt_succ_self rounds) state last
        (inductionHypothesis first fun index below => round index (Nat.lt_succ_of_lt below)) stepped

/-- A loop stops in the first round that fails. -/
theorem range_error {rounds round : Nat} (below : round < rounds) {state : State} {fault : Fault}
    (before : (List.range round).foldlM body start = .ok state)
    (fails : body state round = .error fault) :
    (List.range rounds).foldlM body start = .error fault := by
  obtain ⟨more, rfl⟩ : ∃ more, rounds = round + 1 + more := ⟨rounds - (round + 1), by omega⟩
  rw [List.range_add, List.range_succ, List.foldlM_append, List.foldlM_append, before]
  simp [fails]

theorem list_ok {Item : Type u} {body : State → Item → Outcome State}
    (Invariant : List Item → State → Prop)
    (round : ∀ item rest state, Invariant (item :: rest) state →
      ∃ next, body state item = .ok next ∧ Invariant rest next)
    {items : List Item} {start : State} (base : Invariant items start) :
    ∃ final, items.foldlM body start = .ok final ∧ Invariant [] final := by
  induction items generalizing start with
  | nil => exact ⟨start, rfl, base⟩
  | cons item rest inductionHypothesis =>
      obtain ⟨next, stepped, holds⟩ := round item rest start base
      obtain ⟨final, returned, atEnd⟩ := inductionHypothesis holds
      exact ⟨final, by simp [stepped, returned], atEnd⟩

/-- What no round breaks holds after a loop that returned. -/
theorem list_of_ok {Item : Type u} {body : State → Item → Outcome State}
    (Invariant : State → Prop)
    (round : ∀ item state next, Invariant state → body state item = .ok next → Invariant next)
    {items : List Item} {start final : State} (returned : items.foldlM body start = .ok final)
    (base : Invariant start) : Invariant final := by
  induction items generalizing start with
  | nil =>
      cases returned
      exact base
  | cons item rest inductionHypothesis =>
      rw [List.foldlM_cons] at returned
      obtain ⟨next, stepped, rest⟩ := Outcome.bind_eq_ok.mp returned
      exact inductionHypothesis rest (round item start next base stepped)

end Yaeos.Loop
