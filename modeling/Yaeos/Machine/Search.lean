import Mathlib.Data.List.Basic

/-!
# Linear search

A search offers candidates to a predicate one after another until it accepts
one.  The predicate has data of its own, which it may change at every offer;
`logged` keeps in it what was offered and what the answer was.
-/

namespace Yaeos

universe u v

variable {Candidate : Type u} {Data : Type v}

/-- The first candidate that the predicate accepts. -/
def firstHit (predicate : Candidate → Data → Bool × Data) :
    List Candidate → Data → Option Candidate × Data
  | [], data => (none, data)
  | candidate :: rest, data =>
      let (hit, data) := predicate candidate data
      if hit then (some candidate, data) else firstHit predicate rest data

/-- The predicate together with a log of its answers, in order. -/
def logged (predicate : Candidate → Data → Bool × Data) (candidate : Candidate)
    (state : Data × List (Candidate × Bool)) : Bool × Data × List (Candidate × Bool) :=
  let (hit, data) := predicate candidate state.1
  (hit, data, state.2 ++ [(candidate, hit)])

variable {predicate : Candidate → Data → Bool × Data}

theorem firstHit_append (first second : List Candidate) (data : Data) :
    firstHit predicate (first ++ second) data =
      match firstHit predicate first data with
      | (some candidate, data) => (some candidate, data)
      | (none, data) => firstHit predicate second data := by
  induction first generalizing data with
  | nil => rfl
  | cons candidate rest inductionHypothesis =>
      simp only [List.cons_append, firstHit]
      split
      · rfl
      · exact inductionHypothesis _

/-- A predicate that leaves its data alone selects the first candidate that satisfies it. -/
theorem firstHit_eq_find? {data : Data} (same : ∀ candidate, (predicate candidate data).2 = data)
    (candidates : List Candidate) :
    firstHit predicate candidates data =
      (candidates.find? fun candidate => (predicate candidate data).1, data) := by
  induction candidates with
  | nil => rfl
  | cons candidate rest inductionHypothesis =>
      simp only [firstHit, same, List.find?_cons]
      split
      · next accepted => simp [accepted]
      · next rejected => simp [rejected, inductionHypothesis]

/-- What was offered: every candidate where none was accepted. -/
theorem firstHit_logged_none {candidates : List Candidate} {data : Data}
    (log : List (Candidate × Bool)) (missed : (firstHit predicate candidates data).1 = none) :
    firstHit (logged predicate) candidates (data, log) =
      (none, (firstHit predicate candidates data).2,
        log ++ candidates.map fun candidate => (candidate, false)) := by
  induction candidates generalizing data log with
  | nil => simp [firstHit]
  | cons candidate rest inductionHypothesis =>
      simp only [firstHit, logged] at missed ⊢
      split at missed
      · cases missed
      · next rejected =>
          have answer : (predicate candidate data).1 = false := by simpa using rejected
          simp only [answer, Bool.false_eq_true, if_false]
          rw [inductionHypothesis _ missed]
          simp

/-- What was offered: the candidates up to the one that was accepted. -/
theorem firstHit_logged_some {candidates : List Candidate} {found : Candidate} {data : Data}
    (log : List (Candidate × Bool)) (hit : (firstHit predicate candidates data).1 = some found) :
    ∃ before after, candidates = before ++ found :: after ∧
      firstHit (logged predicate) candidates (data, log) =
        (some found, (firstHit predicate candidates data).2,
          log ++ (before.map fun candidate => (candidate, false)) ++ [(found, true)]) := by
  induction candidates generalizing data log with
  | nil => cases hit
  | cons candidate rest inductionHypothesis =>
      simp only [firstHit, logged] at hit ⊢
      split at hit
      · next accepted =>
          cases hit
          exact ⟨[], rest, rfl, by simp [accepted]⟩
      · next rejected =>
          have answer : (predicate candidate data).1 = false := by simpa using rejected
          obtain ⟨before, after, rfl, offered⟩ := inductionHypothesis (log ++ [(candidate, false)]) hit
          refine ⟨candidate :: before, after, rfl, ?_⟩
          simp only [answer, Bool.false_eq_true, if_false]
          rw [offered]
          simp

end Yaeos
