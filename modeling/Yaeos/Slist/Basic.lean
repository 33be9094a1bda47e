import Yaeos.Machine.Outcome
import Mathlib.Data.List.Basic

/-!
# Singly linked lists (`lib/ds/slist.c`)

An acyclic list hanging from a head is the Lean list of its nodes.  A removal
walks the links until it meets the node; it faults when the list ends before.
-/

namespace Yaeos

variable {Node : Type}

/-- `slist_insert` at the head of a list. -/
def slistInsert (list : List Node) (new : Node) : List Node := new :: list

/-- `slist_insert` with a node of the list as `prev_node`. -/
def slistInsertAfter [DecidableEq Node] : (list : List Node) → (prev new : Node) → List Node
  | [], _, _ => []
  | node :: rest, prev, new =>
      if node = prev then node :: new :: rest else node :: slistInsertAfter rest prev new

def slistIsEmpty (list : List Node) : Bool := list.isEmpty

/-- On an empty list the source follows the `NULL` behind the head before it
comes to the assertion. -/
def slistRemove [DecidableEq Node] : (list : List Node) → (toRemove : Node) → Outcome (List Node)
  | [], _ => .error .nullDeref
  | node :: rest, toRemove =>
      if node = toRemove then .ok rest
      else do
        kassert (rest ≠ [])
        .ok (node :: (← slistRemove rest toRemove))

/-- The node in front stays in front. -/
theorem slistInsertAfter_head [DecidableEq Node] (head : Node) (rest : List Node)
    (prev new : Node) : slistInsertAfter (head :: rest) prev new =
      head :: (slistInsertAfter (head :: rest) prev new).tail := by
  rw [slistInsertAfter]
  split <;> rfl

theorem slistInsertAfter_split [DecidableEq Node] {before after : List Node} {prev new : Node}
    (first : prev ∉ before) :
    slistInsertAfter (before ++ prev :: after) prev new = before ++ prev :: new :: after := by
  induction before with
  | nil => simp [slistInsertAfter]
  | cons head rest inductionHypothesis =>
      simp only [List.mem_cons, not_or] at first
      simp [slistInsertAfter, Ne.symm first.1, inductionHypothesis first.2]

theorem mem_slistInsertAfter [DecidableEq Node] {list : List Node} {prev new member : Node}
    (inserted : member ∈ slistInsertAfter list prev new) :
    member ∈ list ∨ member = new ∧ prev ∈ list := by
  induction list with
  | nil => cases inserted
  | cons head rest inductionHypothesis =>
      by_cases here : head = prev
      · subst here
        rw [slistInsertAfter, if_pos rfl, List.mem_cons, List.mem_cons] at inserted
        rcases inserted with rfl | rfl | behind
        · exact .inl List.mem_cons_self
        · exact .inr ⟨rfl, List.mem_cons_self⟩
        · exact .inl (List.mem_cons_of_mem _ behind)
      · rw [slistInsertAfter, if_neg here, List.mem_cons] at inserted
        rcases inserted with rfl | behind
        · exact .inl List.mem_cons_self
        · exact (inductionHypothesis behind).imp (List.mem_cons_of_mem _)
            (And.imp_right (List.mem_cons_of_mem _))

/-- A removal returns exactly when the node is on the list. -/
theorem slistRemove_eq_ok [DecidableEq Node] {list result : List Node} {node : Node} :
    slistRemove list node = .ok result ↔ node ∈ list ∧ result = list.erase node := by
  induction list generalizing result with
  | nil => simp [slistRemove]
  | cons head rest inductionHypothesis =>
      by_cases same : head = node
      · subst same
        simp [slistRemove, eq_comm]
      · simp only [slistRemove, same, if_false, Outcome.bind_eq_ok, kassert_eq_ok,
          inductionHypothesis, Except.ok.injEq, List.mem_cons, Ne.symm same, false_or,
          List.erase_cons_tail (show ¬(head == node) = true by simpa using same)]
        constructor
        · rintro ⟨_, _, _, ⟨member, rfl⟩, rfl⟩
          exact ⟨member, rfl⟩
        · rintro ⟨member, rfl⟩
          exact ⟨(), List.ne_nil_of_mem member, _, ⟨member, rfl⟩, rfl⟩

/-- The assertion notices a node that is not on the list, unless the list is empty. -/
theorem slistRemove_absent [DecidableEq Node] {list : List Node} {node : Node}
    (nonempty : list ≠ []) (absent : node ∉ list) :
    slistRemove list node = .error .kassert := by
  induction list with
  | nil => exact absurd rfl nonempty
  | cons head rest inductionHypothesis =>
      rw [List.mem_cons, not_or] at absent
      obtain ⟨other, absent⟩ := absent
      rw [slistRemove, if_neg (Ne.symm other)]
      cases rest with
      | nil => rfl
      | cons next rest =>
          rw [kassert_ok (List.cons_ne_nil next rest), Outcome.ok_bind,
            inductionHypothesis (List.cons_ne_nil next rest) absent, Outcome.error_bind]

end Yaeos
