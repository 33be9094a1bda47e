import Yaeos.Slist.Basic
import Yaeos.Slist.Links
import Yaeos.Machine.Run

/-!
# Heaps of singly linked lists (`lib/ds/slist.c`)

The operations on links do to every list of a heap what the operations on lists of nodes
do.  On an empty list `slist_remove` follows the `NULL` behind the head before it comes to
its assertion.
-/

namespace Yaeos

variable {Node : Type} [DecidableEq Node]

namespace SlistLinks

variable {links next : SlistLinks Node} {head toRemove prevNode newNode : Node}
  {list : List Node} {rounds : Nat}

/-- Only one link is changed, and it led to the removed node. -/
def Unlinks (links next : SlistLinks Node) (removed : Node) : Prop :=
  ∃ cursor, links cursor = some removed ∧ ∀ node ≠ cursor, next node = links node

omit [DecidableEq Node] in
/-- Lists without the removed node stay as they are. -/
theorem Unlinks.others (unlinks : links.Unlinks next toRemove) {other : Node} {others : List Node}
    (chain : links.Chain other others) (absent : toRemove ∉ others) : next.Chain other others := by
  obtain ⟨cursor, linked, same⟩ := unlinks
  refine chain.congr fun member inChain => same member ?_
  rintro rfl
  exact absent (chain.mem_of_link inChain linked)

/-- The loop of `slist_remove` does to the chain what `slistRemove` does to its list. -/
theorem Chain.remove_refines (chain : links.Chain head list) (toRemove : Node) :
    (∃ rest next, slistRemove list toRemove = .ok rest ∧
      (∀ rounds, list.length < rounds → links.remove rounds head toRemove = .ok next) ∧
        next.Chain head rest ∧ links.Unlinks next toRemove) ∨
    ∃ fault, slistRemove list toRemove = .error fault ∧
      ∀ rounds, list.length < rounds → links.remove rounds head toRemove = .error fault := by
  induction list generalizing head with
  | nil =>
      have ended : links head = none := chain
      refine .inr ⟨.nullDeref, rfl, fun rounds enough => ?_⟩
      obtain ⟨rounds, rfl⟩ := Nat.exists_eq_succ_of_ne_zero (Nat.ne_of_gt enough)
      simp [remove, removeFrom, ended]
  | cons first rest inductionHypothesis =>
      have steps (result : Outcome (SlistLinks Node)) (stepped : ∀ rounds, rest.length < rounds →
          links.remove (rounds + 1) head toRemove = result) (rounds : Nat)
          (enough : (first :: rest).length < rounds) :
          links.remove rounds head toRemove = result := by
        obtain ⟨rounds, rfl⟩ := Nat.exists_eq_succ_of_ne_zero (Nat.ne_zero_of_lt enough)
        exact stepped rounds (Nat.lt_of_succ_lt_succ enough)
      by_cases found : first = toRemove
      · subst found
        obtain ⟨next, removed, shorter, same⟩ := chain.removeNext
        exact .inl ⟨rest, next, if_pos rfl, steps _ fun rounds _ =>
          (remove_found chain.1).trans removed, shorter, head, chain.1, same⟩
      · obtain ⟨linked, tail⟩ := chain
        have again : slistRemove (first :: rest) toRemove = (do
            kassert (rest ≠ [])
            .ok (first :: (← slistRemove rest toRemove))) := if_neg found
        cases rest with
        | nil =>
            have ended : links first = none := tail
            exact .inr ⟨.kassert, again, steps _ fun rounds _ => remove_stop linked found ended⟩
        | cons second rest =>
            have step (rounds : Nat) : links.remove (rounds + 1) head toRemove =
                links.remove rounds first toRemove := remove_skip linked found tail.1
            rw [kassert_ok (List.cons_ne_nil second rest), Outcome.ok_bind] at again
            rcases inductionHypothesis tail with
              ⟨others, next, removed, returned, shorter, unlinks⟩ | ⟨fault, stopped, returned⟩
            · obtain ⟨cursor, named, same⟩ := unlinks
              have notCursor : head ≠ cursor := by
                rintro rfl
                cases linked.symm.trans named
                exact found rfl
              rw [removed, Outcome.ok_bind] at again
              exact .inl ⟨first :: others, next, again,
                steps _ fun rounds enough => (step rounds).trans (returned rounds enough),
                ⟨(same head notCursor).trans linked, shorter⟩, cursor, named, same⟩
            · rw [stopped, Outcome.error_bind] at again
              exact .inr ⟨fault, again,
                steps _ fun rounds enough => (step rounds).trans (returned rounds enough)⟩

/-- `slist_insert` does to every chain what `slistInsertAfter` does to the list of its nodes. -/
theorem Chain.insert_refines (chain : links.Chain head list) (fresh : newNode ∉ head :: list)
    (prevNode : Node) : (links.insert prevNode newNode).Chain head
      (slistInsertAfter (head :: list) prevNode newNode).tail := by
  induction list generalizing head with
  | nil =>
      by_cases here : head = prevNode
      · subst here
        rw [slistInsertAfter, if_pos rfl]
        exact chain.insert fresh
      · rw [slistInsertAfter, if_neg here]
        exact (insert_of_ne here fun same => fresh (same ▸ List.mem_cons_self)).trans chain
  | cons first rest inductionHypothesis =>
      by_cases here : head = prevNode
      · subst here
        rw [slistInsertAfter, if_pos rfl]
        exact chain.insert fresh
      · obtain ⟨linked, tail⟩ := chain
        rw [slistInsertAfter, if_neg here, List.tail_cons, slistInsertAfter_head first]
        refine ⟨?_, inductionHypothesis tail fun member => fresh (List.mem_cons_of_mem _ member)⟩
        exact (insert_of_ne here fun same => fresh (same ▸ List.mem_cons_self)).trans linked

/-- What removing a node from the list at `head` and inserting one behind another do to the lists
of a heap. -/
structure KeepsLists (links : SlistLinks Node) (head : Node) (list : List Node)
    (toRemove prevNode newNode : Node) : Prop where
  removes : toRemove ∈ list → ∃ next,
    (∀ rounds, list.length < rounds → links.remove rounds head toRemove = .ok next) ∧
      next.Chain head (list.erase toRemove) ∧ toRemove ∉ list.erase toRemove ∧
      links.Unlinks next toRemove ∧
      ∀ other others, links.Chain other others → toRemove ∉ others → next.Chain other others
  stops : toRemove ∉ list → ∀ rounds, list.length < rounds →
    links.remove rounds head toRemove = .error .kassert
  inserts : ∀ first before after, links.Listed first (before ++ prevNode :: after) →
    newNode ∉ before ++ prevNode :: after →
      (links.insert prevNode newNode).Listed first (before ++ prevNode :: newNode :: after)
  insertsOnly : ∀ node, node ≠ prevNode → node ≠ newNode →
    links.insert prevNode newNode node = links node

/-- A node of the list is taken out, and nothing else changes. -/
theorem Chain.remove_member (chain : links.Chain head list) (member : toRemove ∈ list) :
    ∃ next, (∀ rounds, list.length < rounds → links.remove rounds head toRemove = .ok next) ∧
      next.Chain head (list.erase toRemove) ∧ links.Unlinks next toRemove := by
  rcases chain.remove_refines toRemove with
    ⟨rest, next, removed, returned, shorter, unlinks⟩ | ⟨fault, stopped, -⟩
  · obtain ⟨-, rfl⟩ := slistRemove_eq_ok.mp removed
    exact ⟨next, returned, shorter, unlinks⟩
  · rw [slistRemove_eq_ok.mpr ⟨member, rfl⟩] at stopped
    cases stopped

/-- Where the removal of a node that is not on the list stops. -/
theorem Chain.remove_absent (chain : links.Chain head list) (absent : toRemove ∉ list)
    (enough : list.length < rounds) : links.remove rounds head toRemove =
      .error (if list = [] then .nullDeref else .kassert) := by
  rcases chain.remove_refines toRemove with
    ⟨rest, next, removed, -⟩ | ⟨fault, stopped, returned⟩
  · exact absurd (slistRemove_eq_ok.mp removed).1 absent
  · rw [returned rounds enough]
    by_cases empty : list = []
    · subst empty
      cases stopped
      rfl
    · rw [slistRemove_absent empty absent] at stopped
      rw [if_neg empty]
      cases stopped
      rfl

/-- The operations keep the lists of a heap, and the assertion notices that a node is not on a
list, if and only if the list is not empty. -/
theorem keepsLists_iff (chain : links.Chain head list) (toRemove prevNode newNode : Node) :
    links.KeepsLists head list toRemove prevNode newNode ↔ list ≠ [] := by
  constructor
  · rintro keeps rfl
    have stopped := keeps.stops List.not_mem_nil 1 Nat.one_pos
    rw [chain.remove_absent List.not_mem_nil Nat.one_pos] at stopped
    cases stopped
  · intro nonempty
    refine ⟨fun member => ?_, fun absent rounds enough => ?_,
      fun first before after listed fresh => listed.insertBehind fresh,
      fun node notPrev notNew => insert_of_ne notPrev notNew⟩
    · obtain ⟨next, returned, shorter, unlinks⟩ := chain.remove_member member
      exact ⟨next, returned, shorter, (List.nodup_cons.mp chain.nodup).2.not_mem_erase, unlinks,
        fun other others otherChain absent => unlinks.others otherChain absent⟩
    · rw [chain.remove_absent absent enough, if_neg nonempty]

/-- A head and three nodes behind it. -/
def threeObjects : SlistLinks Nat := fun node => if node < 3 then some (node + 1) else none

theorem threeObjects_keepsLists : threeObjects.KeepsLists 0 [1, 2, 3] 2 1 4 :=
  (keepsLists_iff (show threeObjects.Chain 0 [1, 2, 3] from ⟨rfl, rfl, rfl, rfl⟩) 2 1 4).mpr
    (List.cons_ne_nil _ _)

/-- A head that was just initialised. -/
theorem emptyList_not_keepsLists : (init (fun _ : Nat => none) 0).Chain 0 [] ∧
    remove (init (fun _ : Nat => none) 0) 1 0 1 = .error .nullDeref ∧
      ¬(init (fun _ : Nat => none) 0).KeepsLists 0 [] 1 0 2 := by
  refine ⟨chain_init, rfl, fun keeps => ?_⟩
  have stopped := keeps.stops List.not_mem_nil 1 Nat.one_pos
  cases stopped

end SlistLinks

inductive SlistCall (Node : Type) where
  | init (node : Node)
  | insert (prevNode newNode : Node)
  | remove (listHead toRemove : Node)
  deriving DecidableEq, Repr

/-- Links, and the lists that were made of them, under their heads. -/
structure SlistHeap (Node : Type) where
  links : SlistLinks Node
  lists : Node → Option (List Node)

namespace SlistHeap

variable {heap next : SlistHeap Node} {call : SlistCall Node} {links : SlistLinks Node}
  {lists : Node → Option (List Node)} {head : Node} {list : List Node}

/-- The node is neither a head nor on a list. -/
def OnNoList (lists : Node → Option (List Node)) (node : Node) : Prop :=
  ∀ head list, lists head = some list → node ∉ head :: list

/-- No node is on two lists. -/
def Apart (lists : Node → Option (List Node)) : Prop :=
  ∀ head list other others, lists head = some list → lists other = some others → head ≠ other →
    (head :: list).Disjoint (other :: others)

structure Holds (heap : SlistHeap Node) : Prop where
  chain : ∀ head list, heap.lists head = some list → heap.links.Chain head list
  apart : Apart heap.lists

/-- New nodes are on no list, and a node is removed from the list that it is on. -/
def Legal (heap : SlistHeap Node) : SlistCall Node → Prop
  | .init node => OnNoList heap.lists node
  | .insert _ newNode => OnNoList heap.lists newNode
  | .remove listHead toRemove => ∃ list, heap.lists listHead = some list ∧ toRemove ∈ list

/-- What a call does to the links. -/
def linksAfter (links : SlistLinks Node) (rounds : Nat) : SlistCall Node → Outcome (SlistLinks Node)
  | .init node => .ok (links.init node)
  | .insert prevNode newNode => .ok (links.insert prevNode newNode)
  | .remove listHead toRemove => links.remove rounds listHead toRemove

/-- What a call does to the lists. -/
def listsAfter (lists : Node → Option (List Node)) : SlistCall Node → Node → Option (List Node)
  | .init node => Function.update lists node (some [])
  | .insert prevNode newNode => fun head =>
      (lists head).map fun list => (slistInsertAfter (head :: list) prevNode newNode).tail
  | .remove listHead toRemove =>
      Function.update lists listHead ((lists listHead).map (·.erase toRemove))

/-- The call returns once there are enough rounds. -/
def Returns (heap : SlistHeap Node) (call : SlistCall Node) (after : SlistLinks Node) : Prop :=
  ∃ enough, ∀ rounds ≥ enough, linksAfter heap.links rounds call = .ok after

theorem Returns.unique {after again : SlistLinks Node} (returns : heap.Returns call after)
    (returnsAgain : heap.Returns call again) : after = again := by
  obtain ⟨enough, returned⟩ := returns
  obtain ⟨more, returnedAgain⟩ := returnsAgain
  have first := returned (max enough more) (Nat.le_max_left ..)
  rw [returnedAgain (max enough more) (Nat.le_max_right ..)] at first
  exact (Except.ok.inj first).symm

/-- A list is replaced by one that is apart from the others. -/
theorem Apart.update (apart : Apart lists)
    (fresh : ∀ other others, lists other = some others → other ≠ head →
      (head :: list).Disjoint (other :: others)) :
    Apart (Function.update lists head (some list)) := by
  intro first firstList second secondList firstListed secondListed differ
  by_cases here : first = head
  · subst here
    rw [Function.update_self] at firstListed
    rw [Function.update_of_ne (Ne.symm differ)] at secondListed
    cases firstListed
    exact fresh second secondList secondListed (Ne.symm differ)
  · rw [Function.update_of_ne here] at firstListed
    by_cases there : second = head
    · subst there
      rw [Function.update_self] at secondListed
      cases secondListed
      exact List.disjoint_comm.mp (fresh first firstList firstListed here)
    · rw [Function.update_of_ne there] at secondListed
      exact apart first firstList second secondList firstListed secondListed differ

/-- One chain is replaced, and the others are as they were. -/
theorem Holds.update {after : SlistLinks Node} (holds : heap.Holds) (chain : after.Chain head list)
    (others : ∀ other others, heap.lists other = some others → other ≠ head →
      after.Chain other others ∧ (head :: list).Disjoint (other :: others)) :
    Holds ⟨after, Function.update heap.lists head (some list)⟩ where
  chain other otherList listed := by
    dsimp only at listed
    by_cases here : other = head
    · subst here
      rw [Function.update_self] at listed
      cases listed
      exact chain
    · rw [Function.update_of_ne here] at listed
      exact (others other otherList listed here).1
  apart := holds.apart.update fun other otherList listed differ =>
    (others other otherList listed differ).2

theorem Holds.init (holds : heap.Holds) {node : Node} (fresh : OnNoList heap.lists node) :
    Holds ⟨heap.links.init node, listsAfter heap.lists (.init node)⟩ := by
  refine holds.update SlistLinks.chain_init fun other others listed _ => ⟨?_, ?_⟩
  · refine (holds.chain other others listed).congr fun member inChain => SlistLinks.init_of_ne ?_
    rintro rfl
    exact fresh other others listed inChain
  · exact List.singleton_disjoint.mpr (fresh other others listed)

theorem Holds.insert (holds : heap.Holds) {newNode : Node} (prevNode : Node)
    (fresh : OnNoList heap.lists newNode) :
    Holds ⟨heap.links.insert prevNode newNode,
      listsAfter heap.lists (.insert prevNode newNode)⟩ where
  chain head list listed := by
    obtain ⟨old, oldListed, rfl⟩ := Option.map_eq_some_iff.mp listed
    exact (holds.chain head old oldListed).insert_refines (fresh head old oldListed) prevNode
  apart head list other others listed otherListed differ := by
    obtain ⟨old, oldListed, rfl⟩ := Option.map_eq_some_iff.mp listed
    obtain ⟨otherOld, otherOldListed, rfl⟩ := Option.map_eq_some_iff.mp otherListed
    rw [← slistInsertAfter_head, ← slistInsertAfter_head]
    have apart := holds.apart head old other otherOld oldListed otherOldListed differ
    intro member inFirst inSecond
    rcases mem_slistInsertAfter inFirst with inOld | ⟨rfl, prevFirst⟩
    · rcases mem_slistInsertAfter inSecond with inOther | ⟨rfl, -⟩
      · exact apart inOld inOther
      · exact fresh head old oldListed inOld
    · rcases mem_slistInsertAfter inSecond with inOther | ⟨-, prevSecond⟩
      · exact fresh other otherOld otherOldListed inOther
      · exact apart prevFirst prevSecond

theorem Holds.remove (holds : heap.Holds) {toRemove : Node} (listed : heap.lists head = some list)
    (member : toRemove ∈ list) : ∃ after, heap.Returns (.remove head toRemove) after ∧
      Holds ⟨after, listsAfter heap.lists (.remove head toRemove)⟩ := by
  obtain ⟨after, returned, shorter, unlinks⟩ := (holds.chain head list listed).remove_member member
  refine ⟨after, ⟨list.length + 1, returned⟩, ?_⟩
  rw [listsAfter, listed]
  refine holds.update shorter fun other others otherListed differ => ?_
  have apart := holds.apart head list other others listed otherListed (Ne.symm differ)
  refine ⟨unlinks.others (holds.chain other others otherListed) fun inOther =>
    apart (List.mem_cons_of_mem _ member) (List.mem_cons_of_mem _ inOther), ?_⟩
  exact List.disjoint_of_subset_left (List.cons_subset_cons head List.erase_subset) apart

/-- A legal call returns, and the lists are those that it makes of the lists before. -/
theorem Holds.step (holds : heap.Holds) (legal : heap.Legal call) :
    ∃ after, heap.Returns call after ∧ Holds ⟨after, listsAfter heap.lists call⟩ := by
  cases call with
  | init node => exact ⟨_, ⟨0, fun _ _ => rfl⟩, holds.init legal⟩
  | insert prevNode newNode => exact ⟨_, ⟨0, fun _ _ => rfl⟩, holds.insert prevNode legal⟩
  | remove listHead toRemove =>
      obtain ⟨list, listed, member⟩ := legal
      exact holds.remove listed member

end SlistHeap

/-- The runs of legal calls, from links that may be anything. -/
def slistMachine (Node : Type) [DecidableEq Node] : Machine (SlistHeap Node) (SlistCall Node) where
  initial heap := ∀ head, heap.lists head = none
  step heap call next := heap.Legal call ∧ heap.Returns call next.links ∧
    next.lists = SlistHeap.listsAfter heap.lists call

namespace SlistHeap

variable {heap : SlistHeap Node}

/-- In every state of a run the lists are there and apart, and every legal call returns. -/
theorem lists_of_reachable (reached : (slistMachine Node).Reachable heap) :
    heap.Holds ∧ ∀ call, heap.Legal call → ∃ next, (slistMachine Node).step heap call next := by
  have holds : heap.Holds := by
    induction reached with
    | initial start =>
        refine ⟨fun head list listed => ?_, fun head list other others listed => ?_⟩
        · cases (start head).symm.trans listed
        · cases (start head).symm.trans listed
    | @step heap call next _ stepped inductionHypothesis =>
        obtain ⟨legal, returns, made⟩ := stepped
        obtain ⟨after, returnsAfter, kept⟩ := inductionHypothesis.step legal
        obtain ⟨links, lists⟩ := next
        obtain rfl : lists = listsAfter heap.lists call := made
        obtain rfl : links = after := returns.unique returnsAfter
        exact kept
  refine ⟨holds, fun call legal => ?_⟩
  obtain ⟨after, returns, -⟩ := holds.step legal
  exact ⟨⟨after, _⟩, legal, returns, rfl⟩

end SlistHeap

end Yaeos
