import Yaeos.Linear.Basic
import Yaeos.Machine.Extent
import Yaeos.Machine.Run

/-!
# Runs over a linear allocator

A call is admitted by a comparison of a sum, and the sum is a machine word: a length that
carries it around the address space is admitted as well.  As long as no call is admitted
like this, the ranges handed out follow each other inside the block.
-/

namespace Yaeos

inductive LinearCall where
  | alloc (len : Nat)
  | allocAligned (len align : Nat)
  deriving DecidableEq, Repr

namespace LinearCall

def len : LinearCall → Nat
  | .alloc len => len
  | .allocAligned len _ => len

/-- A length is a machine word, an alignment a power of two. -/
def Valid : LinearCall → Prop
  | .alloc len => len < addressSpace
  | .allocAligned len align => len < addressSpace ∧ ∃ power < 32, align = 2 ^ power

instance (call : LinearCall) : Decidable call.Valid :=
  match call with
  | .alloc _ => inferInstanceAs (Decidable (_ < _))
  | .allocAligned _ align => inferInstanceAs (Decidable (_ < _ ∧ ∃ power < 32, align = 2 ^ power))

/-- `return ((void *)pos);` and `return (NULL);` with the allocator after the call. -/
def perform (alloc : LinearAlloc) : LinearCall → Outcome (LinearAlloc × Option Nat)
  | .alloc len => .ok (linearAllocAlloc alloc len)
  | .allocAligned len align => linearAllocAllocAligned alloc len align

/-- The address the call would hand out. -/
def start (alloc : LinearAlloc) : LinearCall → Nat
  | .alloc _ => alloc.position
  | .allocAligned _ align => alignRoundup alloc.position align

/-- The comparison with the limit lets the call pass. -/
def Admitted (alloc : LinearAlloc) : LinearCall → Prop
  | .alloc len => wrap (alloc.position + len) ≤ alloc.limit
  | .allocAligned len align => wrap (alignRoundup alloc.position align + len) < alloc.limit

/-- The sums of the call are addresses. -/
def NoWrap (alloc : LinearAlloc) : LinearCall → Prop
  | .alloc len => alloc.position + len < addressSpace
  | .allocAligned len align => alloc.position + (align - 1) < addressSpace ∧
      alignRoundup alloc.position align + len < addressSpace

/-- The call is not admitted because a sum wrapped around.  Rounding up to zero is harmless
where the length puts the position back: the pointer returned is `NULL` then. -/
def NotByWrap (alloc : LinearAlloc) (call : LinearCall) : Prop :=
  call.Admitted alloc → call.NoWrap alloc ∨ call.start alloc = 0 ∧ call.len = alloc.position

variable {call : LinearCall} {alloc : LinearAlloc}

theorem perform_admitted (valid : call.Valid) (admitted : call.Admitted alloc) :
    call.perform alloc = .ok ({ alloc with position := wrap (call.start alloc + call.len) },
      some (call.start alloc)) := by
  cases call with
  | alloc len => exact congrArg _ (if_neg (Nat.not_lt.mpr admitted))
  | allocAligned len align =>
      obtain ⟨-, power, -, rfl⟩ := valid
      rw [perform, linearAllocAllocAligned, kassert_ok (Nat.two_pow_pos power), Outcome.ok_bind]
      exact if_neg (Nat.not_le.mpr admitted)

theorem perform_refused (valid : call.Valid) (refused : ¬call.Admitted alloc) :
    call.perform alloc = .ok (alloc, none) := by
  cases call with
  | alloc len => exact congrArg _ (if_pos (Nat.lt_of_not_le refused))
  | allocAligned len align =>
      obtain ⟨-, power, -, rfl⟩ := valid
      rw [perform, linearAllocAllocAligned, kassert_ok (Nat.two_pow_pos power), Outcome.ok_bind]
      exact if_pos (Nat.le_of_not_lt refused)

/-- Where no sum wraps around, the call looks for memory behind the position. -/
theorem NoWrap.start_spec (valid : call.Valid) (noWrap : call.NoWrap alloc) :
    alloc.position ≤ call.start alloc ∧ call.start alloc + call.len < addressSpace := by
  cases call with
  | alloc len => exact ⟨Nat.le_refl _, noWrap⟩
  | allocAligned len align =>
      obtain ⟨-, power, fits, rfl⟩ := valid
      exact ⟨(alignRoundup_spec fits noWrap.1).ge, noWrap.2⟩

/-- Where a sum wraps around, the end of the range is none, or the position is rounded up
to zero. -/
theorem wraps_spec (valid : call.Valid) (inside : alloc.position < addressSpace)
    (wraps : ¬call.NoWrap alloc) :
    addressSpace ≤ call.start alloc + call.len ∨ call.start alloc = 0 := by
  cases call with
  | alloc len => exact .inl (Nat.le_of_not_lt wraps)
  | allocAligned len align =>
      obtain ⟨-, power, fits, rfl⟩ := valid
      by_cases rounds : alloc.position + (2 ^ power - 1) < addressSpace
      · exact .inl (Nat.le_of_not_lt fun sum => wraps ⟨rounds, sum⟩)
      · exact .inr (alignRoundup_overflow inside fits (Nat.le_of_not_lt rounds))

theorem admitted_le (admitted : call.Admitted alloc) :
    wrap (call.start alloc + call.len) ≤ alloc.limit := by
  cases call with
  | alloc len => exact admitted
  | allocAligned len align => exact Nat.le_of_lt admitted

end LinearCall

/-! ## The two allocations -/

namespace LinearAlloc

/-- The aligned allocation admits what ends at the limit at the latest, as the other one
does, and with an alignment of one it is the other one. -/
structure SameRule (alloc : LinearAlloc) (len align : Nat) : Prop where
  admits : (LinearCall.allocAligned len align).NoWrap alloc →
    ((∃ next address, linearAllocAllocAligned alloc len align = .ok (next, some address)) ↔
      alignRoundup alloc.position align + len ≤ alloc.limit)
  unaligned : align = 1 →
    linearAllocAllocAligned alloc len align = .ok (linearAllocAlloc alloc len)

theorem allocAligned_admits (alloc : LinearAlloc) {len align : Nat} (positive : 0 < align) :
    (∃ next address, linearAllocAllocAligned alloc len align = .ok (next, some address)) ↔
      wrap (alignRoundup alloc.position align + len) < alloc.limit := by
  rw [linearAllocAllocAligned, kassert_ok positive, Outcome.ok_bind]
  by_cases admitted : wrap (alignRoundup alloc.position align + len) < alloc.limit
  · simp [Nat.not_le.mpr admitted, admitted]
  · simp [Nat.le_of_not_lt admitted, admitted]

theorem alignRoundup_one {address : Nat} (word : address < addressSpace) :
    alignRoundup address 1 = address :=
  (alignRoundup_two_pow (show 0 < 32 by decide) (by simpa using word)).trans (by simp)

/-- With an alignment of one the two differ in requests that end at the limit. -/
theorem allocAligned_one_iff {alloc : LinearAlloc} (word : alloc.position < addressSpace)
    (len : Nat) : linearAllocAllocAligned alloc len 1 = .ok (linearAllocAlloc alloc len) ↔
      wrap (alloc.position + len) ≠ alloc.limit := by
  rw [linearAllocAllocAligned, kassert_ok Nat.one_pos, Outcome.ok_bind, alignRoundup_one word,
    linearAllocAlloc]
  rcases Nat.lt_trichotomy (wrap (alloc.position + len)) alloc.limit with below | atLimit | above
  · simp [Nat.not_le.mpr below, Nat.not_lt.mpr (Nat.le_of_lt below), Nat.ne_of_lt below]
  · simp [atLimit]
  · simp [Nat.le_of_lt above, above, Nat.ne_of_gt above]

/-- The rules are the same except for requests that end at the limit. -/
theorem sameRule_iff {alloc : LinearAlloc} (word : alloc.position < addressSpace) {power : Nat}
    (len : Nat) : alloc.SameRule len (2 ^ power) ↔
      ((LinearCall.allocAligned len (2 ^ power)).NoWrap alloc ∨ power = 0 →
        wrap (alignRoundup alloc.position (2 ^ power) + len) ≠ alloc.limit) := by
  have admits := @allocAligned_admits alloc len (2 ^ power) (Nat.two_pow_pos power)
  have isOne : 2 ^ power = 1 ↔ power = 0 := by simp
  constructor
  · rintro ⟨rule, unaligned⟩ (noWrap | rfl)
    · have sum := wrap_of_lt noWrap.2
      have same := admits.symm.trans (rule noWrap)
      omega
    · rw [Nat.pow_zero, alignRoundup_one word]
      exact (allocAligned_one_iff word len).mp (unaligned rfl)
  · intro elsewhere
    refine ⟨fun noWrap => ?_, fun one => ?_⟩
    · have sum := wrap_of_lt noWrap.2
      have notAtLimit := elsewhere (.inl noWrap)
      rw [admits]
      omega
    · have notAtLimit := elsewhere (.inr (isOne.mp one))
      rw [one, alignRoundup_one word] at notAtLimit
      rw [one]
      exact (allocAligned_one_iff word len).mpr notAtLimit

/-- Sixteen bytes from the middle of a page on. -/
theorem middle_sameRule_iff : (LinearAlloc.mk 0x1000 0x1804 0x2000).SameRule 0x10 (2 ^ 4) ↔
    ((LinearCall.allocAligned 0x10 (2 ^ 4)).NoWrap ⟨0x1000, 0x1804, 0x2000⟩ ∨ 4 = 0 →
      wrap (alignRoundup 0x1804 (2 ^ 4) + 0x10) ≠ 0x2000) :=
  sameRule_iff (by decide) 0x10

/-- The rest of a page: the request that takes all of it is refused. -/
theorem rest_not_sameRule : ¬(LinearAlloc.mk 0x1000 0x1800 0x2000).SameRule 0x800 1 ∧
    linearAllocAllocAligned ⟨0x1000, 0x1800, 0x2000⟩ 0x800 1 =
      .ok (⟨0x1000, 0x1800, 0x2000⟩, none) ∧
    linearAllocAlloc ⟨0x1000, 0x1800, 0x2000⟩ 0x800 = (⟨0x1000, 0x2000, 0x2000⟩, some 0x1800) := by
  refine ⟨fun same => ?_, rfl, rfl⟩
  have returned := same.unaligned rfl
  exact absurd returned (by decide)

end LinearAlloc

/-- A call with the allocator before and after it and what it returned. -/
structure LinearStep where
  call : LinearCall
  before : LinearAlloc
  after : LinearAlloc
  result : Option Nat
  deriving DecidableEq, Repr

/-- The range that a pointer other than `NULL` hands out. -/
def LinearStep.range (step : LinearStep) : Option Extent :=
  (step.result.filter (· ≠ 0)).map fun start => ⟨start, step.call.len⟩

/-- An allocator with the calls so far, the last one first. -/
structure LinearLog where
  alloc : LinearAlloc
  steps : List LinearStep
  deriving DecidableEq, Repr

namespace LinearLog

def call (log : LinearLog) (call : LinearCall) : Outcome LinearLog := do
  let (alloc, result) ← call.perform log.alloc
  .ok ⟨alloc, ⟨call, log.alloc, alloc, result⟩ :: log.steps⟩

/-- The ranges handed out. -/
def ranges (log : LinearLog) : List Extent := log.steps.filterMap LinearStep.range

/-- What an allocator over a block promises about its calls. -/
structure Lawful (block : Extent) (log : LinearLog) : Prop where
  within : ∀ range ∈ log.ranges, range.Within block
  apart : log.ranges.Pairwise Extent.Apart
  increasing : ∀ step ∈ log.steps, step.before.position ≤ step.after.position
  bounded : ∀ alloc ∈ log.alloc :: log.steps.map LinearStep.before, alloc.position ≤ alloc.limit
  /-- A call that returns `NULL` changes nothing. -/
  unchanged : ∀ step ∈ log.steps, step.range = none → step.after = step.before

end LinearLog

/-- The runs from `linear_alloc_init` on. -/
def linearMachine (block : Extent) : Machine LinearLog LinearCall :=
  (Machine.ofOutcome
    (fun log => ∃ alloc, linearAllocInit block.start block.length = .ok alloc ∧ log = ⟨alloc, []⟩)
    LinearLog.call).guard fun _ call => call.Valid

namespace LinearLog

variable {block : Extent} {log next : LinearLog} {call : LinearCall}

/-- The ranges handed out lie between the start of the block and the position. -/
structure Ok (block : Extent) (log : LinearLog) : Prop where
  lawful : log.Lawful block
  named : 0 < block.start
  base : block.start ≤ log.alloc.position
  limit : log.alloc.limit = block.start + block.length
  inside : log.alloc.limit < addressSpace
  below : ∀ range ∈ log.ranges, range.start + range.length ≤ log.alloc.position

theorem Ok.position_le (ok : log.Ok block) : log.alloc.position ≤ log.alloc.limit :=
  ok.lawful.bounded _ (List.mem_cons_self ..)

/-- A call that is not admitted, or puts the position back. -/
theorem Ok.unmoved (ok : log.Ok block) {step : LinearStep} (isBefore : step.before = log.alloc)
    (isAfter : step.after = log.alloc) (nothing : step.range = none) :
    Ok block ⟨log.alloc, step :: log.steps⟩ := by
  have same : (LinearLog.mk log.alloc (step :: log.steps)).ranges = log.ranges :=
    List.filterMap_cons_none nothing
  obtain ⟨⟨within, apart, increasing, bounded, unchanged⟩, named, base, limit, inside, below⟩ := ok
  refine ⟨⟨same ▸ within, same ▸ apart, ?_, ?_, ?_⟩, named, base, limit, inside, same ▸ below⟩
  · rintro other (_ | ⟨_, earlier⟩)
    · rw [isBefore, isAfter]
    · exact increasing other earlier
  · intro alloc member
    rw [List.map_cons, isBefore] at member
    rcases List.mem_cons.mp member with rfl | earlier
    · exact bounded _ (List.mem_cons_self ..)
    · exact bounded alloc earlier
  · rintro other (_ | ⟨_, earlier⟩)
    · exact fun _ => isAfter.trans isBefore.symm
    · exact unchanged other earlier

/-- A call that hands out the memory behind the position. -/
theorem Ok.moved (ok : log.Ok block) {step : LinearStep} {start : Nat}
    (isBefore : step.before = log.alloc)
    (isAfter : step.after = { log.alloc with position := start + step.call.len })
    (result : step.result = some start) (above : log.alloc.position ≤ start)
    (fits : start + step.call.len ≤ log.alloc.limit) :
    Ok block ⟨step.after, step :: log.steps⟩ := by
  have position := ok.position_le
  obtain ⟨⟨within, apart, increasing, bounded, unchanged⟩, named, base, limit, inside, below⟩ := ok
  have isRange : step.range = some ⟨start, step.call.len⟩ := by
    have nonzero : start ≠ 0 := by omega
    simp [LinearStep.range, result, nonzero]
  have added : (LinearLog.mk step.after (step :: log.steps)).ranges =
      ⟨start, step.call.len⟩ :: log.ranges := List.filterMap_cons_some isRange
  refine ⟨⟨?_, ?_, ?_, ?_, ?_⟩, named, ?_, ?_, ?_, ?_⟩
  · rw [added]
    rintro range (_ | ⟨_, earlier⟩)
    · exact ⟨Nat.le_trans base above, by dsimp only; omega⟩
    · exact within range earlier
  · rw [added]
    exact List.pairwise_cons.mpr ⟨fun range earlier =>
      .inr (Nat.le_trans (below range earlier) above), apart⟩
  · rintro other (_ | ⟨_, earlier⟩)
    · rw [isBefore, isAfter]
      dsimp only
      omega
    · exact increasing other earlier
  · intro alloc member
    rw [List.map_cons, isBefore] at member
    rcases List.mem_cons.mp member with rfl | earlier
    · rw [isAfter]
      exact fits
    · exact bounded alloc earlier
  · rintro other (_ | ⟨_, earlier⟩)
    · exact fun none_ => absurd (none_.symm.trans isRange) (by simp)
    · exact unchanged other earlier
  · rw [isAfter]
    dsimp only
    omega
  · rw [isAfter]
    exact limit
  · rw [isAfter]
    exact inside
  · rw [added, isAfter]
    rintro range (_ | ⟨_, earlier⟩)
    · exact Nat.le_refl _
    · have upTo := below range earlier
      dsimp only
      omega

/-- A call that is not admitted by a sum that wrapped around keeps the promises. -/
theorem Ok.perform (ok : log.Ok block) (valid : call.Valid) (safe : call.NotByWrap log.alloc)
    (called : log.call call = .ok next) : next.Ok block := by
  have inside := Nat.lt_of_le_of_lt ok.position_le ok.inside
  by_cases admitted : call.Admitted log.alloc
  · rw [LinearLog.call, LinearCall.perform_admitted valid admitted] at called
    cases called
    have upTo := LinearCall.admitted_le admitted
    rcases safe admitted with noWrap | ⟨zero, back⟩
    · obtain ⟨above, sum⟩ := noWrap.start_spec valid
      rw [wrap_of_lt sum] at upTo ⊢
      let after := { log.alloc with position := call.start log.alloc + call.len }
      let step : LinearStep := ⟨call, log.alloc, after, some (call.start log.alloc)⟩
      exact ok.moved (show step.before = log.alloc from rfl) rfl rfl above upTo
    · have same : wrap (call.start log.alloc + call.len) = log.alloc.position := by
        rw [zero, back, Nat.zero_add, wrap_of_lt inside]
      rw [same]
      refine ok.unmoved rfl rfl ?_
      simp [LinearStep.range, zero]
  · rw [LinearLog.call, LinearCall.perform_refused valid admitted] at called
    cases called
    exact ok.unmoved rfl rfl rfl

/-- A call that is admitted by a sum that wrapped around breaks one of them. -/
theorem Ok.not_lawful (ok : log.Ok block) (valid : call.Valid)
    (wrapped : ¬call.NotByWrap log.alloc) (called : log.call call = .ok next) :
    ¬next.Lawful block := by
  have inside := Nat.lt_of_le_of_lt ok.position_le ok.inside
  simp only [LinearCall.NotByWrap, Classical.not_imp, not_or] at wrapped
  obtain ⟨admitted, wraps, notBack⟩ := wrapped
  rw [LinearLog.call, LinearCall.perform_admitted valid admitted] at called
  cases called
  intro lawful
  by_cases zero : call.start log.alloc = 0
  · have same := lawful.unchanged _ (List.mem_cons_self ..) (by simp [LinearStep.range, zero])
    have back : wrap call.len = log.alloc.position := by
      simpa [zero] using congrArg LinearAlloc.position same
    have word : call.len < addressSpace := by
      cases call with
      | alloc len => exact valid
      | allocAligned len align => exact valid.1
    rw [wrap_of_lt word] at back
    exact notBack ⟨zero, back⟩
  · have beyond := (LinearCall.wraps_spec valid inside wraps).resolve_right zero
    have within := (lawful.within ⟨call.start log.alloc, call.len⟩
      (List.mem_filterMap.mpr ⟨_, List.mem_cons_self .., by simp [LinearStep.range, zero]⟩)).below
    rw [← ok.limit] at within
    exact absurd within (Nat.not_le.mpr (Nat.lt_of_lt_of_le ok.inside beyond))

/-- The promises about a run are promises about its beginning. -/
theorem Lawful.earlier {alloc : LinearAlloc} {step : LinearStep} (isBefore : step.before = log.alloc)
    (lawful : Lawful block ⟨alloc, step :: log.steps⟩) : log.Lawful block := by
  obtain ⟨within, apart, increasing, bounded, unchanged⟩ := lawful
  have kept : log.ranges.Sublist (LinearLog.mk alloc (step :: log.steps)).ranges :=
    (List.sublist_cons_self step log.steps).filterMap _
  refine ⟨fun range member => within range (kept.subset member), apart.sublist kept,
    fun other member => increasing other (List.mem_cons_of_mem _ member), ?_,
    fun other member => unchanged other (List.mem_cons_of_mem _ member)⟩
  rw [← isBefore]
  exact fun alloc member => bounded alloc (List.mem_cons_of_mem _ member)

theorem ok_of_init (fits : block.start + block.length < addressSpace) {alloc : LinearAlloc}
    (initialised : linearAllocInit block.start block.length = .ok alloc) :
    Ok block ⟨alloc, []⟩ := by
  simp only [linearAllocInit, Outcome.bind_eq_ok, kassert_eq_ok, Except.ok.injEq] at initialised
  obtain ⟨_, named, _, positive, rfl⟩ := initialised
  rw [wrap_of_lt fits]
  exact ⟨⟨List.forall_mem_nil _, .nil, List.forall_mem_nil _, by simp, List.forall_mem_nil _⟩,
    Nat.pos_of_ne_zero named, Nat.le_refl _, rfl, fits, List.forall_mem_nil _⟩

/-- A block up to the last address has no limit behind its start. -/
theorem not_lawful_of_init (fits : block.start + block.length = addressSpace) {alloc : LinearAlloc}
    (initialised : linearAllocInit block.start block.length = .ok alloc) :
    ¬Lawful block ⟨alloc, []⟩ := by
  simp only [linearAllocInit, Outcome.bind_eq_ok, kassert_eq_ok, Except.ok.injEq] at initialised
  obtain ⟨_, named, _, -, rfl⟩ := initialised
  intro lawful
  have upTo := lawful.bounded _ (List.mem_cons_self ..)
  rw [fits] at upTo
  exact named (Nat.le_zero.mp upTo)

theorem call_steps (called : log.call call = .ok next) :
    ∃ step, step.call = call ∧ step.before = log.alloc ∧ next = ⟨next.alloc, step :: log.steps⟩ := by
  obtain ⟨⟨alloc, result⟩, -, added⟩ := Outcome.bind_eq_ok.mp called
  cases added
  exact ⟨_, rfl, rfl, rfl⟩

/-- A run keeps the promises if and only if its block ends before the last address and none of
its calls is admitted by a sum that wrapped around. -/
theorem lawful_iff (fits : block.start + block.length ≤ addressSpace)
    (reached : (linearMachine block).Reachable log) :
    log.Lawful block ↔ block.start + block.length < addressSpace ∧
      ∀ step ∈ log.steps, step.call.NotByWrap step.before := by
  suffices both : (log.Lawful block → block.start + block.length < addressSpace ∧
      ∀ step ∈ log.steps, step.call.NotByWrap step.before) ∧
      (block.start + block.length < addressSpace →
        (∀ step ∈ log.steps, step.call.NotByWrap step.before) → log.Ok block) from
    ⟨both.1, fun ⟨ends, safe⟩ => (both.2 ends safe).lawful⟩
  induction reached with
  | initial start =>
      obtain ⟨alloc, initialised, rfl⟩ := start
      refine ⟨fun lawful => ⟨?_, nofun⟩, fun ends _ => ok_of_init ends initialised⟩
      exact Nat.lt_of_le_of_ne fits fun atEnd => not_lawful_of_init atEnd initialised lawful
  | @step log call next _ stepped inductionHypothesis =>
      obtain ⟨valid, called⟩ := stepped
      obtain ⟨step, rfl, isBefore, shape⟩ := call_steps called
      obtain ⟨fromLawful, toOk⟩ := inductionHypothesis
      constructor
      · intro lawful
        obtain ⟨ends, safe⟩ := fromLawful ((shape ▸ lawful).earlier isBefore)
        refine ⟨ends, ?_⟩
        rw [shape]
        refine List.forall_mem_cons.mpr ⟨?_, safe⟩
        rw [isBefore]
        by_contra wrapped
        exact (toOk ends safe).not_lawful valid wrapped called lawful
      · intro ends safe
        rw [shape] at safe
        obtain ⟨last, earlier⟩ := List.forall_mem_cons.mp safe
        exact (toOk ends earlier).perform valid (isBefore ▸ last) called

/-- The page at 0x1000 as a block. -/
def pageLog : LinearLog := ⟨⟨0x1000, 0x1000, 0x2000⟩, []⟩

theorem pageLog_reachable {calls : List LinearCall}
    (executed : Machine.execute (fun _ call => call.Valid) LinearLog.call calls pageLog = some log) :
    (linearMachine ⟨0x1000, 0x1000⟩).Reachable log := by
  have start : (linearMachine ⟨0x1000, 0x1000⟩).Reachable pageLog := .initial ⟨_, rfl, rfl⟩
  exact start.execute Machine.guard_step executed

/-- Two allocations, the second one aligned. -/
theorem page_lawful : ∃ log : LinearLog, log.ranges = [⟨0x1020, 0x100⟩, ⟨0x1000, 0x14⟩] ∧
    (log.Lawful ⟨0x1000, 0x1000⟩ ↔ 0x1000 + 0x1000 < addressSpace ∧
      ∀ step ∈ log.steps, step.call.NotByWrap step.before) := by
  have executed : (Machine.execute (fun _ call => call.Valid) LinearLog.call
      [.alloc 0x14, .allocAligned 0x100 0x20] pageLog).map ranges =
        some [⟨0x1020, 0x100⟩, ⟨0x1000, 0x14⟩] := by decide +kernel
  obtain ⟨log, reached, result⟩ := Option.map_eq_some_iff.mp executed
  exact ⟨log, result, lawful_iff (by decide) (pageLog_reachable reached)⟩

/-- A request of almost the whole address space is granted and moves the position back to
memory that was handed out. -/
theorem page_not_lawful : ∃ log : LinearLog, (linearMachine ⟨0x1000, 0x1000⟩).Reachable log ∧
    log.ranges = [⟨0x1010, 0xFFFFFFF0⟩, ⟨0x1000, 0x10⟩] ∧ log.alloc.position = 0x1000 ∧
    ¬log.Lawful ⟨0x1000, 0x1000⟩ := by
  have executed : (Machine.execute (fun _ call => call.Valid) LinearLog.call
      [.alloc 0x10, .alloc 0xFFFFFFF0] pageLog).map (fun log => (log.ranges, log.alloc.position)) =
        some ([⟨0x1010, 0xFFFFFFF0⟩, ⟨0x1000, 0x10⟩], 0x1000) := by decide +kernel
  obtain ⟨log, reached, result⟩ := Option.map_eq_some_iff.mp executed
  obtain ⟨ranges, position⟩ := Prod.mk.inj result
  refine ⟨log, pageLog_reachable reached, ranges, position, fun lawful => ?_⟩
  have within := lawful.within ⟨0x1010, 0xFFFFFFF0⟩ (by simp [ranges])
  exact absurd within.below (by decide)

end LinearLog

end Yaeos
