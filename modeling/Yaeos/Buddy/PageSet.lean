import Yaeos.Buddy.Pages
import Yaeos.Machine.Run
import Mathlib.Data.Finset.Basic

/-!
# Single pages

The kernel takes and returns single pages only.  In such runs the bitmaps are a
finite set of live pages: `PageSet` is that set with its four operations, and
the runs of the manager are runs of the set, call by call and reply by reply.
-/

namespace Yaeos

inductive PageCall where
  | alloc
  | tryAlloc (page : Nat)
  | free (page : Nat)
  | isFree (page : Nat)
  deriving DecidableEq, Repr

inductive PageReply where
  | page (result : Option Nat)
  | flag (result : Bool)
  | done
  deriving DecidableEq, Repr

/-- The pages of the call exist, and a free names a live page. -/
def PageCall.Legal (pages : Nat) (live : Finset Nat) : PageCall → Prop
  | .alloc => True
  | .tryAlloc page => page < pages
  | .free page => page ∈ live
  | .isFree page => page < pages

instance (pages : Nat) (live : Finset Nat) (call : PageCall) :
    Decidable (call.Legal pages live) := by
  cases call <;> unfold PageCall.Legal <;> infer_instance

namespace PageSet

/-- The smallest page that is not live. -/
def smallest (pages : Nat) (live : Finset Nat) : Option Nat :=
  (List.range pages).find? fun page => page ∉ live

/-- What each operation does to the set of live pages, and what it answers. -/
def call (pages : Nat) (live : Finset Nat) : PageCall → Finset Nat × PageReply
  | .alloc =>
      match smallest pages live with
      | some page => (insert page live, .page (some page))
      | none => (live, .page none)
  | .tryAlloc page => if page ∈ live then (live, .flag false) else (insert page live, .flag true)
  | .free page => (live.erase page, .done)
  | .isFree page => (live, .flag (page ∉ live))

/-- The set of live pages as a machine, labelled with calls and replies. -/
def machine (pages : Nat) : Machine (Finset Nat) (PageCall × PageReply) where
  initial live := live = ∅
  step live label next := label.1.Legal pages live ∧ call pages live label.1 = (next, label.2)

variable {pages page : Nat} {live : Finset Nat}

theorem smallest_eq_some : smallest pages live = some page ↔
    page < pages ∧ page ∉ live ∧ ∀ lower < page, lower ∈ live := by
  rw [smallest, List.find?_range_eq_some]
  simp [and_left_comm]

theorem smallest_eq_none : smallest pages live = none ↔ ∀ page < pages, page ∈ live := by
  rw [smallest, List.find?_range_eq_none]
  simp

end PageSet

/-- The manager together with the pages its clients hold. -/
structure PageSystem where
  manager : BuddyManager
  live : Finset Nat

namespace PageSystem

/-- The calls of order 0, with what they return. -/
def reply (manager : BuddyManager) : PageCall → Outcome (BuddyManager × PageReply)
  | .alloc => do
      let (manager, result) ← buddyAlloc manager 0
      .ok (manager, .page result)
  | .tryAlloc page => do
      let (manager, result) ← buddyTryAlloc manager 0 page
      .ok (manager, .flag result)
  | .free page => do .ok (← buddyFree manager page 0, .done)
  | .isFree page => do .ok (manager, .flag (← buddyIsFree manager page))

/-- What the clients hold after a call, from its reply. -/
def hold (live : Finset Nat) : PageCall → PageReply → Finset Nat
  | .alloc, .page (some page) => insert page live
  | .tryAlloc page, .flag true => insert page live
  | .free page, _ => live.erase page
  | _, _ => live

end PageSystem

/-- The legal runs of single-page calls, from `buddy_init` on. -/
def pageMachine (pages : Nat) : Machine PageSystem (PageCall × PageReply) where
  initial system := (∃ memory alloc rest maxIndex,
    buddyInit memory pages alloc = .ok (system.manager, rest, maxIndex)) ∧ system.live = ∅
  step system label next := label.1.Legal pages system.live ∧
    PageSystem.reply system.manager label.1 = .ok (next.manager, label.2) ∧
    next.live = PageSystem.hold system.live label.1 label.2

namespace PageSystem

variable {system next : PageSystem} {pages page : Nat}

/-- The bitmaps represent the set of live pages, all of which are managed. -/
structure Holds (pages : Nat) (system : PageSystem) : Prop where
  represents : system.manager.Represents pages (· ∈ system.live)
  inside : ∀ page ∈ system.live, page < pages

theorem Holds.bit_iff (holds : system.Holds pages) (inside : page < pages) :
    system.manager.bit 0 page = decide (page ∈ system.live) := by
  rw [Bool.eq_iff_iff, decide_eq_true_iff]
  exact holds.represents.pageBits page inside

theorem Holds.occupy (holds : system.Holds pages) (inside : page < pages) :
    ∃ manager, occupyBuddy system.manager 0 page = .ok manager ∧
      Holds pages ⟨manager, insert page system.live⟩ := by
  have inLevel : (Block.mk page 0).index < pages >>> (Block.mk page 0).order := by simpa using inside
  obtain ⟨manager, occupied, represents, -⟩ :=
    BuddyManager.occupyBuddy_represents holds.represents inLevel (.inl rfl)
  refine ⟨manager, occupied, represents.congr fun other _ => ?_, ?_⟩
  · simp
  · simpa [inside] using holds.inside

/-- `buddy_alloc` answers the smallest page that is not live. -/
theorem Holds.alloc (holds : system.Holds pages) :
    ∃ manager, buddyAlloc system.manager 0 = .ok (manager, PageSet.smallest pages system.live) ∧
      Holds pages ⟨manager, (PageSet.call pages system.live .alloc).1⟩ := by
  have manages := holds.represents.manages
  have exists_ : 0 < system.manager.lvls := by rw [manages.lvls_eq]; exact Nat.succ_pos _
  rcases BuddyManager.buddyAlloc_cases manages exists_ with
    ⟨index, inLevel, clear, lowerSet, result⟩ | ⟨full, result⟩
  · have inside : index < pages := by simpa using inLevel
    have free : index ∉ system.live := by simpa [holds.bit_iff inside] using clear
    have lowerLive : ∀ lower < index, lower ∈ system.live := fun lower below => by
      simpa [holds.bit_iff (below.trans inside)] using lowerSet lower below
    have smallest := PageSet.smallest_eq_some.mpr ⟨inside, free, lowerLive⟩
    obtain ⟨manager, occupied, nextHolds⟩ := holds.occupy inside
    exact ⟨manager, by simp [result, occupied, smallest], by simpa [PageSet.call, smallest]⟩
  · have allLive : ∀ page < pages, page ∈ system.live := fun page inside => by
      simpa [holds.bit_iff inside] using full page (by simpa using inside)
    have smallest := PageSet.smallest_eq_none.mpr allLive
    exact ⟨system.manager, by rw [result, smallest], by simpa [PageSet.call, smallest]⟩

/-- `buddy_try_alloc` succeeds exactly on a page that is not live. -/
theorem Holds.tryAlloc (holds : system.Holds pages) (inside : page < pages) :
    ∃ manager, buddyTryAlloc system.manager 0 page = .ok (manager, decide (page ∉ system.live)) ∧
      Holds pages ⟨manager, (PageSet.call pages system.live (.tryAlloc page)).1⟩ := by
  rw [BuddyManager.buddyTryAlloc_eq holds.represents.manages (by simpa using inside),
    holds.bit_iff inside]
  by_cases member : page ∈ system.live
  · exact ⟨system.manager, by simp [member], by simpa [PageSet.call, member]⟩
  · obtain ⟨manager, occupied, nextHolds⟩ := holds.occupy inside
    exact ⟨manager, by simp [member, occupied], by simpa [PageSet.call, member]⟩

/-- A free that returns takes exactly its page out of the set; it returns when
the page has a sibling. -/
theorem Holds.free (holds : system.Holds pages) (member : page ∈ system.live) :
    if BuddyManager.HasSibling pages ⟨page, 0⟩ then
      ∃ manager, buddyFree system.manager page 0 = .ok manager ∧
        Holds pages ⟨manager, system.live.erase page⟩
    else buddyFree system.manager page 0 = .error .kassert := by
  have inLevel : (Block.mk page 0).index < pages >>> (Block.mk page 0).order := by
    simpa using holds.inside page member
  have spec := BuddyManager.freeBuddy_represents holds.represents inLevel
  split
  · next sibling =>
      rw [if_pos sibling] at spec
      obtain ⟨manager, freed, represents, -⟩ := spec
      refine ⟨manager, freed, represents.congr fun other _ => ?_, fun other listed => ?_⟩
      · simp [and_comm]
      · exact holds.inside other (Finset.mem_of_mem_erase listed)
  · next alone => rwa [if_neg alone] at spec

theorem Holds.isFree (holds : system.Holds pages) (inside : page < pages) :
    buddyIsFree system.manager page = .ok (decide (page ∉ system.live)) := by
  rw [buddyIsFree, BuddyManager.getBit_eq holds.represents.manages (by simpa using inside),
    holds.bit_iff inside]
  simp

/-- Every legal call but a free without a sibling returns. -/
theorem Holds.returns (holds : system.Holds pages) {call : PageCall}
    (legal : call.Legal pages system.live)
    (sibling : ∀ page, call = .free page → BuddyManager.HasSibling pages ⟨page, 0⟩) :
    ∃ manager answer, reply system.manager call = .ok (manager, answer) := by
  cases call with
  | alloc =>
      obtain ⟨manager, result, -⟩ := holds.alloc
      exact ⟨manager, _, by rw [reply, result]; rfl⟩
  | tryAlloc page =>
      obtain ⟨manager, result, -⟩ := holds.tryAlloc legal
      exact ⟨manager, _, by rw [reply, result]; rfl⟩
  | free page =>
      have spec := holds.free legal
      rw [if_pos (sibling page rfl)] at spec
      obtain ⟨manager, result, -⟩ := spec
      exact ⟨manager, _, by rw [reply, result]; rfl⟩
  | isFree page =>
      exact ⟨system.manager, _, by rw [reply, holds.isFree legal]; rfl⟩

/-- One step of the manager is the same step of the set. -/
theorem Holds.step (holds : system.Holds pages) {label : PageCall × PageReply}
    (stepped : (pageMachine pages).step system label next) :
    (PageSet.machine pages).step system.live label next.live ∧ next.Holds pages := by
  obtain ⟨call, answer⟩ := label
  obtain ⟨manager, live⟩ := next
  obtain ⟨legal, called, rfl⟩ := stepped
  suffices both : PageSet.call pages system.live call = (hold system.live call answer, answer) ∧
      Holds pages ⟨manager, hold system.live call answer⟩ from ⟨⟨legal, both.1⟩, both.2⟩
  cases call with
  | alloc =>
      obtain ⟨_, result, nextHolds⟩ := holds.alloc
      simp only [reply, result, Outcome.ok_bind, Except.ok.injEq, Prod.mk.injEq] at called
      obtain ⟨rfl, rfl⟩ := called
      cases found : PageSet.smallest pages system.live with
      | none => exact ⟨by simp [PageSet.call, hold, found], by
          simpa [PageSet.call, hold, found] using nextHolds⟩
      | some page => exact ⟨by simp [PageSet.call, hold, found], by
          simpa [PageSet.call, hold, found] using nextHolds⟩
  | tryAlloc page =>
      obtain ⟨_, result, nextHolds⟩ := holds.tryAlloc legal
      simp only [reply, result, Outcome.ok_bind, Except.ok.injEq, Prod.mk.injEq] at called
      obtain ⟨rfl, rfl⟩ := called
      by_cases member : page ∈ system.live
      · exact ⟨by simp [PageSet.call, hold, member], by
          simpa [PageSet.call, hold, member] using nextHolds⟩
      · exact ⟨by simp [PageSet.call, hold, member], by
          simpa [PageSet.call, hold, member] using nextHolds⟩
  | free page =>
      have spec := holds.free legal
      simp only [reply, Outcome.bind_eq_ok, Except.ok.injEq, Prod.mk.injEq] at called
      obtain ⟨_, result, rfl, rfl⟩ := called
      split at spec
      · obtain ⟨_, freed, nextHolds⟩ := spec
        rw [result] at freed
        cases freed
        exact ⟨rfl, nextHolds⟩
      · rw [spec] at result
        cases result
  | isFree page =>
      simp only [reply, holds.isFree legal, Outcome.ok_bind, Except.ok.injEq,
        Prod.mk.injEq] at called
      obtain ⟨rfl, rfl⟩ := called
      exact ⟨rfl, holds⟩

theorem holds_of_initial (initial : (pageMachine pages).initial system) : system.Holds pages := by
  obtain ⟨⟨memory, alloc, rest, maxIndex, initialised⟩, nothingLive⟩ := initial
  refine ⟨(BuddyManager.buddyInit_represents initialised).congr fun page _ => ?_, ?_⟩ <;>
    simp [nothingLive]

/-- Every run of single-page calls is a run of the set of live pages with the
same replies, and at its end the set tells what every call answers. -/
theorem refines_pageSet {pages : Nat} {start final : PageSystem}
    {labels : List (PageCall × PageReply)} (initial : (pageMachine pages).initial start)
    (run : (pageMachine pages).Trace start labels final) :
    (PageSet.machine pages).Trace ∅ labels final.live ∧
    (∃ manager, buddyAlloc final.manager 0 = .ok (manager, PageSet.smallest pages final.live)) ∧
    (∀ page < pages,
      (∃ manager, buddyTryAlloc final.manager 0 page =
        .ok (manager, decide (page ∉ final.live))) ∧
      buddyIsFree final.manager page = .ok (decide (page ∉ final.live))) ∧
    (∀ page ∈ final.live, ∀ lvl, page >>> lvl < pages >>> lvl →
      final.manager.bit lvl (page >>> lvl) = true) ∧
    (∀ call, call.Legal pages final.live →
      (∀ page, call = .free page → BuddyManager.HasSibling pages ⟨page, 0⟩) →
      ∃ manager answer, reply final.manager call = .ok (manager, answer)) := by
  obtain ⟨trace, holds⟩ := run.simulate PageSystem.live (Holds pages)
    (fun _ _ _ holds stepped => holds.step stepped) (holds_of_initial initial)
  rw [initial.2] at trace
  refine ⟨trace, ?_, fun page inside => ⟨?_, holds.isFree inside⟩, fun page member => ?_,
    fun call legal sibling => holds.returns legal sibling⟩
  · obtain ⟨manager, result, -⟩ := holds.alloc
    exact ⟨manager, result⟩
  · obtain ⟨manager, result, -⟩ := holds.tryAlloc inside
    exact ⟨manager, result⟩
  · exact holds.represents.ancestors page (holds.inside page member) member

/-- One call of a list, with the labels of the calls before it. -/
def performCall (pages : Nat) (state : PageSystem × List (PageCall × PageReply))
    (call : PageCall) : Option (PageSystem × List (PageCall × PageReply)) :=
  if call.Legal pages state.1.live then
    match reply state.1.manager call with
    | .ok (manager, answer) =>
        some (⟨manager, hold state.1.live call answer⟩, state.2 ++ [(call, answer)])
    | .error _ => none
  else none

/-- Perform the calls of a list; `none` when one is not legal or does not return. -/
def perform (pages : Nat) (calls : List PageCall)
    (state : PageSystem × List (PageCall × PageReply)) :
    Option (PageSystem × List (PageCall × PageReply)) :=
  calls.foldlM (performCall pages) state

theorem perform_trace {start : PageSystem} {calls : List PageCall}
    {state final : PageSystem × List (PageCall × PageReply)}
    (trace : (pageMachine pages).Trace start state.2 state.1)
    (performed : perform pages calls state = some final) :
    (pageMachine pages).Trace start final.2 final.1 := by
  induction calls generalizing state with
  | nil =>
      cases performed
      exact trace
  | cons call rest inductionHypothesis =>
      simp only [perform, List.foldlM_cons, Option.bind_eq_bind, Option.bind_eq_some_iff]
        at performed
      obtain ⟨middle, called, performed⟩ := performed
      refine inductionHypothesis ?_ performed
      unfold performCall at called
      split at called
      · next legal =>
          split at called
          · next manager answer result =>
              cases called
              exact trace.snoc ⟨legal, result, rfl⟩
          · cases called
      · cases called

/-- Three pages: the pages are handed out in order, a freed one is handed out
again, and the last page of the odd level is never lost. -/
theorem refines_pageSet_three : ∃ final : PageSystem, final.live = {2, 1, 0} ∧
    (∃ manager, buddyAlloc final.manager 0 = .ok (manager, none)) := by
  have run : ((BuddyManager.boot 3).bind fun manager => (perform 3 [.alloc, .alloc, .tryAlloc 1,
      .free 0, .tryAlloc 2, .isFree 0, .alloc] (⟨manager, ∅⟩, [])).map fun final =>
        final.1.live) = some {2, 1, 0} := by decide
  obtain ⟨manager, booted, run⟩ := Option.bind_eq_some_iff.mp run
  obtain ⟨final, performed, live⟩ := Option.map_eq_some_iff.mp run
  have initial : (pageMachine 3).initial ⟨manager, ∅⟩ := ⟨BuddyManager.boot_eq booted, rfl⟩
  have result := (refines_pageSet initial (perform_trace .nil performed)).2.1
  have full : PageSet.smallest 3 {2, 1, 0} = none := by decide
  rw [live, full] at result
  exact ⟨final.1, live, result⟩

end PageSystem

end Yaeos
