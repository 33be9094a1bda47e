import Yaeos.Slist.Links

/-!
# Walks along singly linked lists (`lib/ds/slist.h`)

A list that only grows at its head holds what was inserted, as long as nothing is inserted
twice.  Then `SLIST_FOREACH` is the fold over it; an element that comes again closes the
list to a ring, and the loop has no end.
-/

namespace Yaeos

namespace SlistLinks

variable {Node State : Type} {links : SlistLinks Node} {head node newNode : Node}
  {first : Option Node} {list inserted : List Node} {op : Node → State → Outcome State}
  {rounds : Nat} {state final : State}

/-- `SLIST_FOREACH`, with what is done at a node. -/
def forEach (op : Node → State → Outcome State) (links : SlistLinks Node) :
    (rounds : Nat) → (iterv : Option Node) → State → Outcome State
  | _, none, state => .ok state
  | 0, some _, _ => .error .unfinished
  | rounds + 1, some iterv, state => do
      let state ← op iterv state
      forEach op links rounds (links iterv) state

theorem Listed.forEach_iff (listed : links.Listed first list) :
    (∃ rounds, forEach op links rounds first state = .ok final) ↔
      list.foldlM (fun state it => op it state) state = .ok final := by
  induction list generalizing first state with
  | nil =>
      cases listed
      refine ⟨?_, fun folded => ⟨0, ?_⟩⟩
      · rintro ⟨rounds, returned⟩
        rw [forEach] at returned
        exact returned
      · rw [forEach]
        exact folded
  | cons head rest inductionHypothesis =>
      obtain ⟨rfl, tail⟩ := listed
      rw [List.foldlM_cons, Outcome.bind_eq_ok]
      constructor
      · rintro ⟨rounds, returned⟩
        cases rounds with
        | zero => cases returned
        | succ rounds =>
            obtain ⟨after, performed, others⟩ := Outcome.bind_eq_ok.mp returned
            exact ⟨after, performed, (inductionHypothesis tail).mp ⟨rounds, others⟩⟩
      · rintro ⟨after, performed, folded⟩
        obtain ⟨rounds, others⟩ := (inductionHypothesis tail).mpr folded
        exact ⟨rounds + 1, Outcome.bind_eq_ok.mpr ⟨after, performed, others⟩⟩

/-- Behind the node there is always another one. -/
def Ring (links : SlistLinks Node) (node : Node) : Prop :=
  ∃ members : Node → Prop, (∃ next, members next ∧ links node = some next) ∧
    ∀ member, members member → ∃ next, members next ∧ links member = some next

/-- A ring has no end. -/
theorem Ring.forEach_ne_ok (ring : links.Ring node) :
    forEach op links rounds (links node) state ≠ .ok final := by
  obtain ⟨members, ⟨next, inRing, linked⟩, closed⟩ := ring
  rw [linked]
  clear linked
  induction rounds generalizing next state with
  | zero =>
      intro returned
      cases returned
  | succ rounds inductionHypothesis =>
      obtain ⟨second, secondInRing, linked⟩ := closed next inRing
      intro returned
      rw [forEach, linked] at returned
      obtain ⟨after, -, returned⟩ := Outcome.bind_eq_ok.mp returned
      exact inductionHypothesis second secondInRing returned

/-- The node that comes next on the way to a node of a chain. -/
theorem Chain.toward {before after : List Node}
    (chain : links.Chain node (before ++ newNode :: after)) :
    ∃ next ∈ before ++ [newNode], links node = some next := by
  cases before with
  | nil => exact ⟨newNode, List.mem_singleton_self newNode, chain.1⟩
  | cons next before => exact ⟨next, List.mem_cons_self, chain.1⟩

variable [DecidableEq Node]

theorem init_self : links.init node node = none := Function.update_self ..

theorem insert_head : links.insert head newNode head = some newNode := Function.update_self ..

theorem insert_new (differs : newNode ≠ head) :
    links.insert head newNode newNode = links head := by
  rw [SlistLinks.insert, Function.update_of_ne differs, Function.update_self]

/-- `slist_init` of the node that is inserted changes nothing. -/
theorem insert_init (differs : newNode ≠ head) :
    (links.init newNode).insert head newNode = links.insert head newNode := by
  rw [SlistLinks.insert, SlistLinks.insert, init_of_ne differs.symm, init, Function.update_idem]

/-- A node of the list that is inserted again closes the list behind itself. -/
theorem Chain.ring_insert (chain : links.Chain head list) (again : newNode ∈ list) :
    (links.insert head newNode).Ring head := by
  have notHead : head ∉ list := (List.nodup_cons.mp chain.nodup).1
  obtain ⟨before, after, rfl⟩ := List.append_of_mem again
  have last : newNode ∈ before ++ [newNode] :=
    List.mem_append_right _ (List.mem_singleton_self newNode)
  refine ⟨fun member => member ∈ before ++ [newNode], ⟨newNode, last, insert_head⟩, ?_⟩
  intro member inside
  by_cases isAgain : member = newNode
  · subst isAgain
    obtain ⟨next, nextInside, linked⟩ := chain.toward
    have differs : member ≠ head := by
      rintro rfl
      exact notHead (List.mem_append_right _ List.mem_cons_self)
    exact ⟨next, nextInside, (insert_new differs).trans linked⟩
  · have inFront : member ∈ before := by
      rcases List.mem_append.mp inside with inFront | isLast
      · exact inFront
      · exact absurd (List.mem_singleton.mp isLast) isAgain
    have differs : member ≠ head := by
      rintro rfl
      exact notHead (List.mem_append_left _ inFront)
    obtain ⟨front, back, rfl⟩ := List.append_of_mem inFront
    rw [List.append_assoc, List.cons_append] at chain ⊢
    obtain ⟨next, nextInside, linked⟩ := chain.behind.toward
    exact ⟨next, List.mem_append_right _ (List.mem_cons_of_mem _ nextInside),
      (insert_of_ne differs isAgain).trans linked⟩

/-- A ring stays one, whatever is inserted. -/
theorem Ring.insert (ring : links.Ring head) (newNode : Node) :
    (links.insert head newNode).Ring head := by
  obtain ⟨members, ⟨start, inRing, linked⟩, closed⟩ := ring
  refine ⟨fun member => member = newNode ∨ members member, ⟨newNode, .inl rfl, insert_head⟩, ?_⟩
  intro member inside
  by_cases isHead : member = head
  · subst isHead
    exact ⟨newNode, .inl rfl, insert_head⟩
  · by_cases isNew : member = newNode
    · subst isNew
      exact ⟨start, .inr inRing, (insert_new isHead).trans linked⟩
    · obtain ⟨next, nextInRing, follows⟩ := closed member (inside.resolve_left isNew)
      exact ⟨next, .inr nextInRing, (insert_of_ne isHead isNew).trans follows⟩

/-- The list at a head after the insertions, the last one first. -/
structure Inserted (links : SlistLinks Node) (head : Node) (inserted : List Node) : Prop where
  apart : head ∉ inserted
  listed : inserted.Nodup → links.Chain head inserted
  closed : ¬inserted.Nodup → links.Ring head

omit [DecidableEq Node] in
theorem inserted_nil (ended : links head = none) : links.Inserted head [] where
  apart := List.not_mem_nil
  listed _ := ended
  closed repeated := absurd List.nodup_nil repeated

theorem Inserted.insert (holds : links.Inserted head inserted) (differs : newNode ≠ head) :
    (links.insert head newNode).Inserted head (newNode :: inserted) where
  apart member := by
    rcases List.mem_cons.mp member with same | behind
    · exact differs same.symm
    · exact holds.apart behind
  listed nodup := by
    obtain ⟨fresh, others⟩ := List.nodup_cons.mp nodup
    refine (holds.listed others).insert ?_
    rw [List.mem_cons, not_or]
    exact ⟨differs, fresh⟩
  closed repeated := by
    by_cases others : inserted.Nodup
    · have again : newNode ∈ inserted := by
        by_contra fresh
        exact repeated (List.nodup_cons.mpr ⟨fresh, others⟩)
      exact (holds.listed others).ring_insert again
    · exact (holds.closed others).insert newNode

omit [DecidableEq Node] in
/-- The walk returns if and only if nothing was inserted twice and it does so on the list. -/
theorem Inserted.forEach_iff (holds : links.Inserted head inserted) :
    (∃ rounds, forEach op links rounds (links head) state = .ok final) ↔
      inserted.Nodup ∧ inserted.foldlM (fun state it => op it state) state = .ok final := by
  by_cases nodup : inserted.Nodup
  · rw [and_iff_right nodup]
    exact (chain_iff_listed.mp (holds.listed nodup)).forEach_iff
  · refine iff_of_false ?_ fun both => nodup both.1
    rintro ⟨rounds, returned⟩
    exact (holds.closed nodup).forEach_ne_ok returned

end SlistLinks

end Yaeos
