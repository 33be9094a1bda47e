import Yaeos.Machine.Outcome
import Mathlib.Data.List.Nodup
import Mathlib.Logic.Function.Basic

/-!
# Links of singly linked lists (`lib/ds/slist.c`)

`links` gives the `next` of every node, a head being a node like any other.
`Chain` is the list that hangs from a node; each operation is described by what
it does to chains and by the nodes whose link it leaves alone.
-/

namespace Yaeos

variable {Node : Type} [DecidableEq Node]

/-- `node->next` for every `struct slist_ref`. -/
abbrev SlistLinks (Node : Type) := Node → Option Node

namespace SlistLinks

/-- `slist_init`. -/
def init (links : SlistLinks Node) (node : Node) : SlistLinks Node :=
  Function.update links node none

/-- `slist_insert`. -/
def insert (links : SlistLinks Node) (prevNode newNode : Node) : SlistLinks Node :=
  Function.update (Function.update links newNode (links prevNode)) prevNode (some newNode)

/-- `slist_remove_next`. -/
def removeNext (links : SlistLinks Node) (prevNode : Node) : Outcome (SlistLinks Node) :=
  match links prevNode with
  | none => .error .kassert
  | some next => .ok (Function.update links prevNode (links next))

/-- The loop of `slist_remove` at the field that `cursor` points to, the link of a
node.  The `NULL` behind a chain is followed before the assertion. -/
def removeFrom (links : SlistLinks Node) (toRemove : Node) :
    (rounds : Nat) → Node → Outcome (SlistLinks Node)
  | 0, _ => .error .unfinished
  | rounds + 1, cursor =>
      match links cursor with
      | none => .error .nullDeref
      | some next =>
          if next = toRemove then .ok (Function.update links cursor (links next))
          else do
            kassert (links next).isSome
            removeFrom links toRemove rounds next

/-- `slist_remove`. -/
def remove (links : SlistLinks Node) (rounds : Nat) (listHead toRemove : Node) :
    Outcome (SlistLinks Node) :=
  links.removeFrom toRemove rounds listHead

/-- The nodes that hang from a node, up to the `NULL` at their end. -/
def Chain (links : SlistLinks Node) : Node → List Node → Prop
  | node, [] => links node = none
  | node, next :: rest => links node = some next ∧ Chain links next rest

/-- The nodes of a list that is known by its first node. -/
def Listed (links : SlistLinks Node) : Option Node → List Node → Prop
  | first, [] => first = none
  | first, node :: rest => first = some node ∧ Listed links (links node) rest

variable {links links' : SlistLinks Node} {node prevNode newNode : Node} {list : List Node}
  {first : Option Node}

omit [DecidableEq Node] in
/-- Only the links of the nodes of a chain matter. -/
theorem Chain.congr (chain : links.Chain node list)
    (same : ∀ member ∈ node :: list, links' member = links member) : links'.Chain node list := by
  induction list generalizing node with
  | nil => exact (same node List.mem_cons_self).trans chain
  | cons next rest inductionHypothesis =>
      obtain ⟨first, tail⟩ := chain
      exact ⟨(same node List.mem_cons_self).trans first,
        inductionHypothesis tail fun member inTail => same member (List.mem_cons_of_mem _ inTail)⟩

omit [DecidableEq Node] in
theorem chain_iff_listed : links.Chain node list ↔ links.Listed (links node) list := by
  induction list generalizing node with
  | nil => rfl
  | cons next rest inductionHypothesis =>
      exact and_congr_right fun _ => inductionHypothesis

omit [DecidableEq Node] in
theorem Listed.unique {other : List Node} (listed : links.Listed first list)
    (again : links.Listed first other) : list = other := by
  induction list generalizing first other with
  | nil =>
      cases other with
      | nil => rfl
      | cons node rest => cases listed.symm.trans again.1
  | cons node rest inductionHypothesis =>
      cases other with
      | nil => cases again.symm.trans listed.1
      | cons head tail =>
          obtain ⟨rfl, restListed⟩ := listed
          obtain ⟨same, tailListed⟩ := again
          cases same
          rw [inductionHypothesis restListed tailListed]

omit [DecidableEq Node] in
theorem Chain.unique {other : List Node} (chain : links.Chain node list)
    (again : links.Chain node other) : list = other :=
  (chain_iff_listed.mp chain).unique (chain_iff_listed.mp again)

omit [DecidableEq Node] in
/-- What hangs from a node further down. -/
theorem Chain.behind {before after : List Node} {member : Node}
    (chain : links.Chain node (before ++ member :: after)) : links.Chain member after := by
  induction before generalizing node with
  | nil => exact chain.2
  | cons second before inductionHypothesis => exact inductionHypothesis chain.2

omit [DecidableEq Node] in
/-- A chain ends, so it does not come back to a node. -/
theorem Chain.nodup (chain : links.Chain node list) : (node :: list).Nodup := by
  have notBehind {node : Node} {list : List Node} (chain : links.Chain node list) : node ∉ list := by
    intro again
    obtain ⟨before, after, rfl⟩ := List.append_of_mem again
    have same := congrArg List.length (chain.unique chain.behind)
    simp only [List.length_append, List.length_cons] at same
    omega
  induction list generalizing node with
  | nil => exact List.nodup_singleton node
  | cons next rest inductionHypothesis =>
      exact List.nodup_cons.mpr ⟨notBehind chain, inductionHypothesis chain.2⟩

omit [DecidableEq Node] in
theorem Listed.nodup (listed : links.Listed first list) : list.Nodup := by
  cases list with
  | nil => exact List.nodup_nil
  | cons node rest => exact (chain_iff_listed.mpr listed.2).nodup

omit [DecidableEq Node] in
/-- What a node of a chain links to is on the chain. -/
theorem Chain.mem_of_link {member next : Node} (chain : links.Chain node list)
    (inChain : member ∈ node :: list) (linked : links member = some next) : next ∈ list := by
  induction list generalizing node with
  | nil =>
      obtain rfl := List.mem_singleton.mp inChain
      cases chain.symm.trans linked
  | cons second rest inductionHypothesis =>
      obtain ⟨first, tail⟩ := chain
      rcases List.mem_cons.mp inChain with rfl | behind
      · cases first.symm.trans linked
        exact List.mem_cons_self
      · exact List.mem_cons_of_mem _ (inductionHypothesis tail behind)

theorem init_of_ne {other : Node} (differs : other ≠ node) : links.init node other = links other :=
  Function.update_of_ne differs ..

theorem chain_init : (links.init node).Chain node [] := Function.update_self ..

theorem insert_of_ne {other : Node} (notPrev : other ≠ prevNode) (notNew : other ≠ newNode) :
    links.insert prevNode newNode other = links other := by
  rw [insert, Function.update_of_ne notPrev, Function.update_of_ne notNew]

/-- A node that is not on the chain becomes its first one. -/
theorem Chain.insert (chain : links.Chain prevNode list) (fresh : newNode ∉ prevNode :: list) :
    (links.insert prevNode newNode).Chain prevNode (newNode :: list) := by
  have headApart : prevNode ∉ list := (List.nodup_cons.mp chain.nodup).1
  obtain ⟨notHead, notMember⟩ := not_or.mp (fun either => fresh (List.mem_cons.mpr either))
  have atNew : links.insert prevNode newNode newNode = links prevNode := by
    rw [SlistLinks.insert, Function.update_of_ne notHead, Function.update_self]
  refine ⟨Function.update_self .., ?_⟩
  cases list with
  | nil => exact atNew.trans chain
  | cons next rest =>
      obtain ⟨first, tail⟩ := chain
      refine ⟨atNew.trans first, tail.congr fun member inTail => ?_⟩
      refine insert_of_ne ?_ ?_
      · rintro rfl
        exact headApart inTail
      · rintro rfl
        exact notMember inTail

/-- Taking out the first node of a chain. -/
theorem Chain.removeNext {removed : Node} (chain : links.Chain prevNode (removed :: list)) :
    ∃ next, links.removeNext prevNode = .ok next ∧ next.Chain prevNode list ∧
      ∀ other ≠ prevNode, next other = links other := by
  have nodup := chain.nodup
  obtain ⟨first, tail⟩ := chain
  refine ⟨Function.update links prevNode (links removed), by simp [SlistLinks.removeNext, first], ?_,
    fun other differs => Function.update_of_ne differs ..⟩
  have others : ∀ other ≠ prevNode,
      Function.update links prevNode (links removed) other = links other :=
    fun other differs => Function.update_of_ne differs ..
  have apart : ∀ member ∈ list, member ≠ prevNode := by
    rintro member inList rfl
    exact (List.nodup_cons.mp nodup).1 (List.mem_cons_of_mem _ inList)
  cases list with
  | nil => exact (Function.update_self ..).trans tail
  | cons next rest =>
      obtain ⟨second, tail⟩ := tail
      exact ⟨(Function.update_self ..).trans second, tail.congr fun member inRest =>
        others member (apart member inRest)⟩

/-- A node that is not on the chain becomes its last one. -/
theorem Chain.append (chain : links.Chain node list) (fresh : newNode ∉ node :: list) :
    (links.insert (list.getLastD node) newNode).Chain node (list ++ [newNode]) := by
  induction list generalizing node with
  | nil => exact chain.insert fresh
  | cons next rest inductionHypothesis =>
      have notBehind : node ∉ next :: rest := (List.nodup_cons.mp chain.nodup).1
      obtain ⟨first, tail⟩ := chain
      obtain ⟨notHead, notMember⟩ := not_or.mp (fun either => fresh (List.mem_cons.mpr either))
      rw [List.getLastD_cons]
      refine ⟨?_, inductionHypothesis tail notMember⟩
      rw [insert_of_ne ?_ (Ne.symm notHead), first]
      intro same
      have behind : rest.getLastD next ∈ next :: rest := List.getLastD_mem_cons ..
      exact notBehind (same ▸ behind)

section Rounds

variable {next toRemove : Node} {rounds : Nat}

/-- A round at the link that leads to the node. -/
theorem remove_found (linked : links node = some next) :
    links.remove (rounds + 1) node next = links.removeNext node := by
  rw [remove, removeFrom, linked]
  simp only [if_true, removeNext, linked]

/-- A round that goes on to the next node. -/
theorem remove_skip {second : Node} (linked : links node = some next) (other : next ≠ toRemove)
    (more : links next = some second) :
    links.remove (rounds + 1) node toRemove = links.remove rounds next toRemove := by
  rw [remove, removeFrom, linked]
  simp only [if_neg other, more, Option.isSome_some, kassert_true, Outcome.ok_bind]
  rfl

/-- The round in which the assertion notices the end. -/
theorem remove_stop (linked : links node = some next) (other : next ≠ toRemove)
    (ended : links next = none) :
    links.remove (rounds + 1) node toRemove = .error .kassert := by
  rw [remove, removeFrom, linked]
  simp only [if_neg other, ended]
  rfl

end Rounds

/-- Removing the first node of a chain takes one round. -/
theorem Chain.remove_first {removed : Node} {rounds : Nat}
    (chain : links.Chain prevNode (removed :: list)) (enough : 0 < rounds) :
    ∃ next, links.remove rounds prevNode removed = .ok next ∧ next.Chain prevNode list ∧
      ∀ other ≠ prevNode, next other = links other := by
  obtain ⟨rounds, rfl⟩ := Nat.exists_eq_succ_of_ne_zero (Nat.ne_of_gt enough)
  rw [remove_found chain.1]
  exact chain.removeNext

omit [DecidableEq Node] in
/-- What the node before a node of the chain names. -/
theorem Chain.next_of_last {before after : List Node} {member : Node}
    (chain : links.Chain node (before ++ member :: after)) :
    links (before.getLastD node) = some member := by
  induction before generalizing node with
  | nil => exact chain.1
  | cons second before inductionHypothesis =>
      rw [List.getLastD_cons]
      exact inductionHypothesis chain.2

/-- A node further down is taken out behind the one before it. -/
theorem Chain.removeAt {before after : List Node} {removed : Node}
    (chain : links.Chain node (before ++ removed :: after)) :
    ∃ next, links.removeNext (before.getLastD node) = .ok next ∧
      next.Chain node (before ++ after) ∧
      ∀ other ≠ before.getLastD node, next other = links other := by
  induction before generalizing node with
  | nil => exact chain.removeNext
  | cons second before inductionHypothesis =>
      have notBehind : node ∉ second :: (before ++ removed :: after) :=
        (List.nodup_cons.mp chain.nodup).1
      obtain ⟨first, tail⟩ := chain
      obtain ⟨next, removedNext, rest, others⟩ := inductionHypothesis tail
      rw [List.getLastD_cons]
      have differs : node ≠ before.getLastD second := by
        intro same
        have behind : before.getLastD second ∈ second :: before := List.getLastD_mem_cons ..
        exact notBehind (List.mem_append_left _ (same ▸ behind))
      exact ⟨next, removedNext, ⟨(others node differs).trans first, rest⟩, others⟩

/-- The loop that looks at the node behind a trailing cursor: the cursor in front
of the first node that passes the test. -/
def findPrev (links : SlistLinks Node) (test : Node → Outcome Bool) :
    Nat → Node → Outcome (Option Node)
  | 0, _ => .error .unfinished
  | rounds + 1, cursor =>
      match links cursor with
      | none => .ok none
      | some next => do
          if ← test next then .ok (some cursor) else findPrev links test rounds next

omit [DecidableEq Node] in
theorem Chain.findPrev {test : Node → Outcome Bool} {passes : Node → Bool} {rounds : Nat}
    (chain : links.Chain node list) (tested : ∀ member ∈ list, test member = .ok (passes member))
    (enough : list.length < rounds) :
    (links.findPrev test rounds node = .ok none ∧ ∀ member ∈ list, passes member = false) ∨
    ∃ before found after, list = before ++ found :: after ∧
      (∀ member ∈ before, passes member = false) ∧ passes found = true ∧
      links.findPrev test rounds node = .ok (some (before.getLastD node)) := by
  induction list generalizing node rounds with
  | nil =>
      obtain ⟨rounds, rfl⟩ : ∃ more, rounds = more + 1 := ⟨rounds - 1, by simp at enough; omega⟩
      have ended : links node = none := chain
      exact Or.inl ⟨by simp [SlistLinks.findPrev, ended], nofun⟩
  | cons next rest inductionHypothesis =>
      obtain ⟨first, tail⟩ := chain
      obtain ⟨rounds, rfl⟩ : ∃ more, rounds = more + 1 := ⟨rounds - 1, by simp at enough; omega⟩
      have here := tested next List.mem_cons_self
      cases passed : passes next with
      | true =>
          rw [passed] at here
          exact Or.inr ⟨[], next, rest, rfl, nofun, passed,
            by simp [SlistLinks.findPrev, first, here]⟩
      | false =>
          rw [passed] at here
          have step : links.findPrev test (rounds + 1) node = links.findPrev test rounds next := by
            simp [SlistLinks.findPrev, first, here]
          rw [step]
          have shorter : rest.length < rounds := by simpa using enough
          rcases inductionHypothesis tail (fun member inRest =>
            tested member (List.mem_cons_of_mem _ inRest)) shorter with
            ⟨nothing, none⟩ | ⟨before, found, after, rfl, failed, hit, returned⟩
          · exact Or.inl ⟨nothing, List.forall_mem_cons.mpr ⟨passed, none⟩⟩
          · refine Or.inr ⟨next :: before, found, after, rfl,
              List.forall_mem_cons.mpr ⟨passed, failed⟩, hit, ?_⟩
            rw [List.getLastD_cons]
            exact returned

/-- `SLIST_FOREACH` up to the first node that passes the test: this node and the one
before it. -/
def forEachUntil (links : SlistLinks Node) (test : Node → Bool) :
    (rounds : Nat) → Option Node → Option Node → Outcome (Option (Option Node × Node))
  | _, _, none => .ok none
  | 0, _, some _ => .error .unfinished
  | rounds + 1, last, some it =>
      if test it then .ok (some (last, it))
      else forEachUntil links test rounds (some it) (links it)

omit [DecidableEq Node] in
theorem Listed.congr (listed : links.Listed first list)
    (same : ∀ member ∈ list, links' member = links member) : links'.Listed first list := by
  induction list generalizing first with
  | nil => exact listed
  | cons node rest inductionHypothesis =>
      obtain ⟨isFirst, tail⟩ := listed
      refine ⟨isFirst, ?_⟩
      rw [same node List.mem_cons_self]
      exact inductionHypothesis tail fun member inRest => same member (List.mem_cons_of_mem _ inRest)

omit [DecidableEq Node] in
/-- What comes behind a node. -/
theorem Listed.next {before after : List Node} (listed : links.Listed first (before ++ node :: after)) :
    links node = after.head? := by
  induction before generalizing first with
  | nil =>
      cases after with
      | nil => exact listed.2
      | cons next rest => exact listed.2.1
  | cons head before inductionHypothesis => exact inductionHypothesis listed.2

/-- A new node goes behind another one. -/
theorem Listed.insertBehind {before after : List Node}
    (listed : links.Listed first (before ++ prevNode :: after))
    (fresh : newNode ∉ before ++ prevNode :: after) :
    (links.insert prevNode newNode).Listed first (before ++ prevNode :: newNode :: after) := by
  induction before generalizing first with
  | nil =>
      obtain ⟨isFirst, tail⟩ := listed
      exact ⟨isFirst, chain_iff_listed.mp ((chain_iff_listed.mpr tail).insert fresh)⟩
  | cons head before inductionHypothesis =>
      have notBehind : head ∉ before ++ prevNode :: after := (List.nodup_cons.mp listed.nodup).1
      obtain ⟨isFirst, tail⟩ := listed
      obtain ⟨notHead, notMember⟩ := not_or.mp (fun either => fresh (List.mem_cons.mpr either))
      refine ⟨isFirst, ?_⟩
      have notPrev : head ≠ prevNode := by
        rintro rfl
        exact notBehind (by simp)
      rw [insert_of_ne notPrev (Ne.symm notHead)]
      exact inductionHypothesis tail notMember

/-- The node behind another one is taken out. -/
theorem Listed.removeBehind {before after : List Node} {removed : Node}
    (listed : links.Listed first (before ++ prevNode :: removed :: after)) :
    ∃ next, links.removeNext prevNode = .ok next ∧
      next.Listed first (before ++ prevNode :: after) := by
  induction before generalizing first with
  | nil =>
      obtain ⟨isFirst, tail⟩ := listed
      obtain ⟨next, removedNext, rest, -⟩ := (chain_iff_listed.mpr tail).removeNext
      exact ⟨next, removedNext, isFirst, chain_iff_listed.mp rest⟩
  | cons head before inductionHypothesis =>
      have notBehind : head ∉ before ++ prevNode :: removed :: after :=
        (List.nodup_cons.mp listed.nodup).1
      obtain ⟨isFirst, tail⟩ := listed
      obtain ⟨next, removedNext, rest⟩ := inductionHypothesis tail
      refine ⟨next, removedNext, isFirst, ?_⟩
      have notPrev : head ≠ prevNode := by
        rintro rfl
        exact notBehind (by simp)
      have same : next head = links head := by
        rw [removeNext, (show links prevNode = some removed from tail.next)] at removedNext
        cases removedNext
        exact Function.update_of_ne notPrev ..
      rw [same]
      exact rest

omit [DecidableEq Node] in
/-- The search ends behind the last node. -/
theorem Listed.forEachUntil_none {test : Node → Bool} {rounds : Nat}
    (listed : links.Listed first list) (enough : list.length ≤ rounds) (last : Option Node)
    (failed : ∀ member ∈ list, test member = false) :
    links.forEachUntil test rounds last first = .ok none := by
  induction list generalizing first last rounds with
  | nil =>
      cases listed
      simp [forEachUntil]
  | cons node rest inductionHypothesis =>
      obtain ⟨rfl, tail⟩ := listed
      obtain ⟨rounds, rfl⟩ : ∃ more, rounds = more + 1 := ⟨rounds - 1, by simp at enough; omega⟩
      rw [forEachUntil, if_neg (by simp [failed node List.mem_cons_self])]
      exact inductionHypothesis tail (by simpa using enough) (some node) fun member inRest =>
        failed member (List.mem_cons_of_mem _ inRest)

omit [DecidableEq Node] in
/-- Only the first node of the list that passes is ever found, however many rounds there
are. -/
theorem Listed.of_forEachUntil {test : Node → Bool} {rounds : Nat} {last previous : Option Node}
    {found : Node} (listed : links.Listed first list)
    (returned : links.forEachUntil test rounds last first = .ok (some (previous, found))) :
    ∃ before after, list = before ++ found :: after ∧ (∀ member ∈ before, test member = false) ∧
      test found = true ∧ previous = before.getLast?.or last := by
  induction list generalizing first last rounds with
  | nil =>
      cases listed
      rw [forEachUntil] at returned
      cases returned
  | cons node rest inductionHypothesis =>
      obtain ⟨rfl, tail⟩ := listed
      cases rounds with
      | zero => cases returned
      | succ rounds =>
          cases passed : test node with
          | true =>
              rw [forEachUntil, if_pos passed] at returned
              cases returned
              exact ⟨[], rest, rfl, List.forall_mem_nil _, passed, rfl⟩
          | false =>
              rw [forEachUntil, if_neg (by simp [passed])] at returned
              obtain ⟨before, after, rfl, failed, hit, rfl⟩ := inductionHypothesis tail returned
              refine ⟨node :: before, after, rfl, List.forall_mem_cons.mpr ⟨passed, failed⟩, hit, ?_⟩
              rw [List.getLast?_cons]
              cases before.getLast? <;> rfl

omit [DecidableEq Node] in
/-- The search stops at the first node that passes. -/
theorem Listed.forEachUntil_some {test : Node → Bool} {rounds : Nat} {before after : List Node}
    {found : Node} (listed : links.Listed first (before ++ found :: after))
    (enough : (before ++ found :: after).length ≤ rounds) (last : Option Node)
    (failed : ∀ member ∈ before, test member = false) (passed : test found = true) :
    links.forEachUntil test rounds last first = .ok (some (before.getLast?.or last, found)) := by
  induction before generalizing first last rounds with
  | nil =>
      obtain ⟨rfl, -⟩ := listed
      obtain ⟨rounds, rfl⟩ : ∃ more, rounds = more + 1 := ⟨rounds - 1, by simp at enough; omega⟩
      simp [forEachUntil, passed]
  | cons node before inductionHypothesis =>
      obtain ⟨rfl, tail⟩ := listed
      obtain ⟨rounds, rfl⟩ : ∃ more, rounds = more + 1 := ⟨rounds - 1, by simp at enough; omega⟩
      rw [forEachUntil, if_neg (by simp [failed node List.mem_cons_self]),
        inductionHypothesis tail (by simpa using enough) (some node) fun member inRest =>
          failed member (List.mem_cons_of_mem _ inRest), List.getLast?_cons]
      cases before.getLast? <;> rfl

end SlistLinks

end Yaeos
