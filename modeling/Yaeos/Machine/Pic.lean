import Mathlib.Data.BitVec

/-!
# Two cascaded interrupt controllers

A controller takes its initialization words one after the other at its data port.  Then it
picks the requested line of the lowest number that is neither masked nor behind a line still
in service, and a line stays in service until a command ends it.  The lines of the second
controller come in at the third line of the first one.  Rotating priorities and the commands
that only choose what is read are not modelled.
-/

namespace Yaeos.Pic

/-- What the next byte at the data port is. -/
inductive Stage where
  | operating | icw2 | icw3 | icw4
  deriving DecidableEq, Repr

/-- One controller; the bits of a byte are its lines. -/
structure Chip where
  stage : Stage
  single : Bool
  needsIcw4 : Bool
  offset : BitVec 8
  cascade : BitVec 8
  mode : BitVec 8
  mask : BitVec 8
  requested : BitVec 8
  inService : BitVec 8
  deriving DecidableEq, Repr

namespace Chip

/-- A byte to the command port: the first initialization word, or the end of the interrupt of
the highest priority, or of a given one. -/
def command (chip : Chip) (value : BitVec 8) : Chip :=
  if value.getLsbD 4 then
    { chip with
      stage := .icw2
      single := value.getLsbD 1
      needsIcw4 := value.getLsbD 0
      mask := 0
      mode := if value.getLsbD 0 then chip.mode else 0 }
  else if value &&& 0xF8 = 0x20 then
    { chip with inService := chip.inService &&& (chip.inService - 1) }
  else if value &&& 0xF8 = 0x60 then
    { chip with inService := chip.inService &&& ~~~(BitVec.twoPow 8 (value &&& 7).toNat) }
  else chip

/-- The stage behind the words about the cascade. -/
def lastStage (chip : Chip) : Stage := if chip.needsIcw4 then .icw4 else .operating

/-- A byte to the data port. -/
def data (chip : Chip) (value : BitVec 8) : Chip :=
  match chip.stage with
  | .operating => { chip with mask := value }
  | .icw2 => { chip with
      offset := value &&& 0xF8
      stage := if chip.single then chip.lastStage else .icw3 }
  | .icw3 => { chip with cascade := value, stage := chip.lastStage }
  | .icw4 => { chip with mode := value, stage := .operating }

/-- No line of this or a higher priority is in service. -/
def free (chip : Chip) (line : Nat) : Bool :=
  (List.range (line + 1)).all fun other => !chip.inService.getLsbD other

/-- The line that the controller asks to be served, with its requests given. -/
def pick (chip : Chip) (requests : BitVec 8) : Option Nat :=
  (List.range 8).find? fun line =>
    requests.getLsbD line && !chip.mask.getLsbD line && chip.free line

def request (chip : Chip) (line : Nat) : Chip :=
  { chip with requested := chip.requested ||| BitVec.twoPow 8 line }

def acknowledge (chip : Chip) (line : Nat) : Chip :=
  { chip with
    requested := chip.requested &&& ~~~(BitVec.twoPow 8 line)
    inService := chip.inService ||| BitVec.twoPow 8 line }

/-- Without a line in service only requests and masks matter. -/
theorem pick_of_quiet {chip : Chip} (quiet : chip.inService = 0) (requests : BitVec 8) :
    chip.pick requests = (List.range 8).find? fun line =>
      requests.getLsbD line && !chip.mask.getLsbD line := by
  have isFree : ∀ line, chip.free line = true := fun line => by
    rw [free, quiet]
    exact List.all_eq_true.mpr fun other _ => by simp
  simp only [pick, isFree, Bool.and_true]

/-- The end of an interrupt undoes its acknowledgement. -/
theorem end_of_single : ∀ line < 8,
    (0 ||| BitVec.twoPow 8 line) &&& (0 ||| BitVec.twoPow 8 line) - 1 = 0 := by
  decide

end Chip

structure Pair where
  master : Chip
  slave : Chip
  deriving DecidableEq, Repr

namespace Pair

/-- A byte to a port. -/
def write (pair : Pair) (port value : BitVec 8) : Pair :=
  match port with
  | 0x20 => { pair with master := pair.master.command value }
  | 0x21 => { pair with master := pair.master.data value }
  | 0xA0 => { pair with slave := pair.slave.command value }
  | 0xA1 => { pair with slave := pair.slave.data value }
  | _ => pair

/-- A device asks for its line. -/
def raise (pair : Pair) (line : Nat) : Pair :=
  if line < 8 then
    { pair with master := pair.master.request line }
  else
    { pair with slave := pair.slave.request (line - 8) }

/-- The requests at the first controller, with the wire from the second one. -/
def masterRequests (pair : Pair) : BitVec 8 :=
  if (pair.slave.pick pair.slave.requested).isSome then pair.master.requested ||| BitVec.twoPow 8 2
  else pair.master.requested

/-- What a line of the first controller brings: its own vector, or the vector of the second
controller if the first one knows the line to lead there. -/
def answer (pair : Pair) (line : Nat) : Option (Nat × BitVec 8 × Pair) :=
  if pair.master.cascade.getLsbD line then
    if pair.slave.cascade = BitVec.ofNat 8 line then
      (pair.slave.pick pair.slave.requested).map fun slaveLine =>
        (8 + slaveLine, pair.slave.offset + BitVec.ofNat 8 slaveLine,
          ⟨{ pair.master with inService := pair.master.inService ||| BitVec.twoPow 8 line },
            pair.slave.acknowledge slaveLine⟩)
    else none
  else
    some (line, pair.master.offset + BitVec.ofNat 8 line,
      { pair with master := pair.master.acknowledge line })

/-- The processor takes an interrupt: its line, its vector, and the controllers afterwards. -/
def acknowledge (pair : Pair) : Option (Nat × BitVec 8 × Pair) :=
  if pair.master.stage = .operating ∧ pair.slave.stage = .operating then
    (pair.master.pick pair.masterRequests).bind pair.answer
  else none

/-- The controllers between two interrupts: initialized for each other, no line in service. -/
structure Quiet (pair : Pair) : Prop where
  masterStage : pair.master.stage = .operating
  slaveStage : pair.slave.stage = .operating
  masterCascade : pair.master.cascade = BitVec.twoPow 8 2
  slaveCascade : pair.slave.cascade = 2
  masterInService : pair.master.inService = 0
  slaveInService : pair.slave.inService = 0
  wire : pair.master.requested.getLsbD 2 = false

/-- A line is requested and not masked on its way. -/
def ready (pair : Pair) (line : Nat) : Bool :=
  if line < 8 then pair.master.requested.getLsbD line && !pair.master.mask.getLsbD line
  else pair.slave.requested.getLsbD (line - 8) && !pair.slave.mask.getLsbD (line - 8) &&
    !pair.master.mask.getLsbD 2

/-- The lines by their priority. -/
def priorities : List Nat := [0, 1] ++ (List.range 8).map (8 + ·) ++ [3, 4, 5, 6, 7]

/-- The controllers while a line is served. -/
def serving (pair : Pair) (line : Nat) : Pair :=
  if line < 8 then { pair with master := pair.master.acknowledge line }
  else ⟨{ pair.master with inService := pair.master.inService ||| BitVec.twoPow 8 2 },
    pair.slave.acknowledge (line - 8)⟩

/-- The vector that goes with a line. -/
def vector (pair : Pair) (line : Nat) : BitVec 8 :=
  if line < 8 then pair.master.offset + BitVec.ofNat 8 line
  else pair.slave.offset + BitVec.ofNat 8 (line - 8)

theorem find?_priorities (pair : Pair) :
    priorities.find? pair.ready =
      (([0, 1].find? pair.ready).or (((List.range 8).find? fun line =>
        pair.ready (8 + line)).map (8 + ·))).or ([3, 4, 5, 6, 7].find? pair.ready) := by
  rw [priorities, List.find?_append, List.find?_append, List.find?_map]
  rfl

theorem Quiet.pick_master {pair : Pair} (quiet : pair.Quiet) :
    pair.master.pick pair.masterRequests =
      (([0, 1].find? pair.ready).or
        (if (pair.slave.pick pair.slave.requested).isSome && !pair.master.mask.getLsbD 2 then some 2
          else none)).or ([3, 4, 5, 6, 7].find? pair.ready) := by
  have other : ∀ line, line < 8 → line ≠ 2 →
      (pair.masterRequests.getLsbD line && !pair.master.mask.getLsbD line) = pair.ready line := by
    intro line small apart
    rw [ready, if_pos small]
    unfold masterRequests
    split
    · rw [BitVec.getLsbD_or, BitVec.getLsbD_twoPow]
      simp [Ne.symm apart]
    · rfl
  have wired : pair.masterRequests.getLsbD 2 =
      (pair.slave.pick pair.slave.requested).isSome := by
    unfold masterRequests
    split
    case isTrue some => rw [BitVec.getLsbD_or, quiet.wire, some]; rfl
    case isFalse none => rw [quiet.wire, Bool.eq_false_of_not_eq_true none]
  rw [Chip.pick_of_quiet quiet.masterInService,
    show List.range 8 = [0, 1] ++ [2] ++ [3, 4, 5, 6, 7] from rfl, List.find?_append,
    List.find?_append]
  simp only [List.find?_cons, List.find?_nil, other 0 (by decide) (by decide),
    other 1 (by decide) (by decide), wired, other 3 (by decide) (by decide),
    other 4 (by decide) (by decide), other 5 (by decide) (by decide),
    other 6 (by decide) (by decide), other 7 (by decide) (by decide)]
  cases (pair.slave.pick pair.slave.requested).isSome && !pair.master.mask.getLsbD 2 <;> rfl

/-- The lines of the second controller are ready as long as the first one lets them through. -/
theorem Quiet.pick_slave {pair : Pair} (quiet : pair.Quiet) :
    ((List.range 8).find? fun line => pair.ready (8 + line)) =
      if pair.master.mask.getLsbD 2 then none else pair.slave.pick pair.slave.requested := by
  have slaveReady : ∀ line, pair.ready (8 + line) = ((pair.slave.requested.getLsbD line &&
      !pair.slave.mask.getLsbD line) && !pair.master.mask.getLsbD 2) := by
    intro line
    rw [ready, if_neg (by omega), Nat.add_sub_cancel_left]
  simp only [slaveReady, Chip.pick_of_quiet quiet.slaveInService]
  cases pair.master.mask.getLsbD 2 with
  | true => simp
  | false => simp

theorem pick_lt {chip : Chip} {requests : BitVec 8} {line : Nat}
    (picked : chip.pick requests = some line) : line < 8 :=
  List.mem_range.mp (List.mem_of_find?_eq_some picked)

theorem Quiet.answer_own {pair : Pair} (quiet : pair.Quiet) {lines : List Nat}
    (own : ∀ line ∈ lines, line < 8 ∧ line ≠ 2) :
    (lines.find? pair.ready).bind pair.answer = (lines.find? pair.ready).map fun line =>
      (line, pair.vector line, pair.serving line) := by
  cases found : lines.find? pair.ready with
  | none => rfl
  | some line =>
      obtain ⟨small, apart⟩ := own line (List.mem_of_find?_eq_some found)
      have isOwn : ¬pair.master.cascade.getLsbD line = true := by
        rw [quiet.masterCascade, BitVec.getLsbD_twoPow]
        simp [Ne.symm apart]
      rw [Option.bind_some, Option.map_some, answer, if_neg isOwn, vector, if_pos small, serving,
        if_pos small]

theorem Quiet.answer_cascade {pair : Pair} (quiet : pair.Quiet) :
    pair.answer 2 = (pair.slave.pick pair.slave.requested).map fun line =>
      (8 + line, pair.vector (8 + line), pair.serving (8 + line)) := by
  have isWire : pair.master.cascade.getLsbD 2 = true := by
    rw [quiet.masterCascade]
    rfl
  have beyond : ∀ line, ¬8 + line < 8 := fun line => by omega
  have responds : pair.slave.cascade = BitVec.ofNat 8 2 := quiet.slaveCascade
  rw [answer, if_pos isWire, if_pos responds]
  simp only [vector, serving, if_neg (beyond _), Nat.add_sub_cancel_left]

/-- Between two interrupts the next one is the first line that is ready, in the order of the
priorities, with the vector of its controller. -/
theorem Quiet.acknowledge_eq {pair : Pair} (quiet : pair.Quiet) :
    pair.acknowledge = (priorities.find? pair.ready).map fun line =>
      (line, pair.vector line, pair.serving line) := by
  have first := quiet.answer_own (show ∀ line ∈ [0, 1], line < 8 ∧ line ≠ 2 by decide)
  have last := quiet.answer_own (show ∀ line ∈ [3, 4, 5, 6, 7], line < 8 ∧ line ≠ 2 by decide)
  rw [acknowledge, if_pos ⟨quiet.masterStage, quiet.slaveStage⟩, quiet.pick_master,
    find?_priorities, quiet.pick_slave]
  cases own : [0, 1].find? pair.ready with
  | some line =>
      rw [own] at first
      exact first
  | none =>
      cases masked : pair.master.mask.getLsbD 2 with
      | true => simpa using last
      | false =>
          cases picked : pair.slave.pick pair.slave.requested with
          | none => simpa using last
          | some line => simp [quiet.answer_cascade, picked]

end Pair

end Yaeos.Pic
