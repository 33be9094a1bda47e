import Yaeos.Machine.Run
import Yaeos.Slist.Walk
import Yaeos.Video.Basic

/-!
# Consoles (`kernel/console.c`)

Every message goes over the list of the registered consoles.  A console that is registered
twice closes the list to a ring, and then no message comes to its end any more.
-/

namespace Yaeos

/-- The operations of a console, on what `data` points to. -/
structure ConsoleOps (Data : Type) where
  write : Option (List Nat → Nat → Data → Outcome Data)
  clear : Option (Data → Outcome Data)

namespace ConsoleOps

variable {Data : Type}

def clears (ops : ConsoleOps Data) (data : Data) : Outcome Data :=
  match ops.clear with
  | some clear => clear data
  | none => .ok data

def writes (ops : ConsoleOps Data) (msg : List Nat) (len : Nat) (data : Data) : Outcome Data :=
  match ops.write with
  | some write => write msg len data
  | none => .ok data

end ConsoleOps

/-- The links of the consoles, `none` being `ACTIVE_CONSOLES`, and the data of each. -/
structure Consoles (Id : Type) (Data : Id → Type) where
  links : SlistLinks (Option Id)
  data : ∀ c, Data c

namespace Consoles

variable {Id : Type} {Data : Id → Type} [DecidableEq Id]

def consolesInit (consoles : Consoles Id Data) : Consoles Id Data :=
  { consoles with links := consoles.links.init none }

def consoleRegister (consoles : Consoles Id Data) (c : Option Id) :
    Outcome (Consoles Id Data) := do
  kassert (c.isSome = true)
  .ok { consoles with links := consoles.links.insert none c }

/-- What a call does at a node, the console being around it. -/
def atNode (op : ∀ c, Data c → Outcome (Data c)) (it : Option Id) (data : ∀ c, Data c) :
    Outcome (∀ c, Data c) := do
  let c ← deref it
  .ok (Function.update data c (← op c (data c)))

def consoleClear (ops : ∀ c, ConsoleOps (Data c)) (rounds : Nat) (consoles : Consoles Id Data) :
    Outcome (Consoles Id Data) := do
  let data ← consoles.links.forEach (atNode fun c => (ops c).clears) rounds
    (consoles.links none) consoles.data
  .ok { consoles with data := data }

def consoleWrite (ops : ∀ c, ConsoleOps (Data c)) (rounds : Nat) (msg : List Nat) (len : Nat)
    (consoles : Consoles Id Data) : Outcome (Consoles Id Data) := do
  let data ← consoles.links.forEach (atNode fun c => (ops c).writes msg len) rounds
    (consoles.links none) consoles.data
  .ok { consoles with data := data }

/-- Each of the consoles gets the message once, the others do not. -/
theorem foldlM_atNode_iff {op : ∀ c, Data c → Outcome (Data c)} {list : List Id}
    (nodup : list.Nodup) {data final : ∀ c, Data c} :
    (list.map some).foldlM (fun data it => atNode op it data) data = .ok final ↔
      (∀ c ∈ list, op c (data c) = .ok (final c)) ∧ ∀ c ∉ list, final c = data c := by
  induction list generalizing data with
  | nil =>
      constructor
      · intro folded
        cases folded
        exact ⟨List.forall_mem_nil _, fun c _ => rfl⟩
      · rintro ⟨-, same⟩
        have unchanged : final = data := funext fun c => same c List.not_mem_nil
        rw [unchanged]
        rfl
  | cons head rest inductionHypothesis =>
      obtain ⟨notBehind, restNodup⟩ := List.nodup_cons.mp nodup
      have others : ∀ after, ∀ c, c ≠ head → Function.update data head after c = data c :=
        fun after c differs => Function.update_of_ne differs ..
      have differs : ∀ c ∈ rest, c ≠ head := by
        rintro c member rfl
        exact notBehind member
      rw [List.map_cons, List.foldlM_cons, atNode, deref, Outcome.ok_bind, Outcome.bind_eq_ok]
      constructor
      · rintro ⟨middle, first, folded⟩
        obtain ⟨after, performed, same⟩ := Outcome.bind_eq_ok.mp first
        cases same
        obtain ⟨inside, outside⟩ := (inductionHypothesis restNodup).mp folded
        have atHead : final head = after := (outside head notBehind).trans (Function.update_self ..)
        refine ⟨List.forall_mem_cons.mpr ⟨?_, fun c member => ?_⟩, fun c absent => ?_⟩
        · rw [atHead]
          exact performed
        · rw [← inside c member, others after c (differs c member)]
        · obtain ⟨notHead, notRest⟩ := not_or.mp (List.mem_cons.not.mp absent)
          rw [outside c notRest, others after c notHead]
      · rintro ⟨inside, outside⟩
        obtain ⟨performed, behind⟩ := List.forall_mem_cons.mp inside
        refine ⟨Function.update data head (final head), ?_, ?_⟩
        · rw [performed]
          rfl
        · refine (inductionHypothesis restNodup).mpr ⟨fun c member => ?_, fun c absent => ?_⟩
          · rw [others _ c (differs c member)]
            exact behind c member
          · by_cases isHead : c = head
            · subst isHead
              rw [Function.update_self]
            · rw [others _ c isHead]
              exact outside c (List.mem_cons.not.mpr (not_or.mpr ⟨isHead, absent⟩))

end Consoles

/-- The calls at the list of consoles. -/
inductive ConsoleCall (Id : Type) where
  | register (c : Option Id)
  | clear
  | write (msg : List Nat) (len : Nat)

namespace ConsoleCall

variable {Id Data : Type}

/-- What a call does to one console. -/
def deliver (ops : ConsoleOps Data) : ConsoleCall Id → Data → Outcome Data
  | register _ => .ok
  | clear => ops.clears
  | write msg len => ops.writes msg len

/-- The console that a call registers. -/
def registers : ConsoleCall Id → Option Id
  | register c => c
  | _ => none

/-- The calls that go to every console. -/
def IsMessage : ConsoleCall Id → Prop
  | register _ => False
  | _ => True

/-- The consoles that the calls of a run register, the last one first. -/
def registered (calls : List (ConsoleCall Id)) : List Id := (calls.filterMap registers).reverse

theorem registered_snoc (calls : List (ConsoleCall Id)) (call : ConsoleCall Id) :
    registered (calls ++ [call]) = call.registers.toList ++ registered calls := by
  cases found : call.registers <;> simp [registered, found]

end ConsoleCall

namespace Consoles

variable {Id : Type} {Data : Id → Type} [DecidableEq Id] {ops : ∀ c, ConsoleOps (Data c)}
  {start consoles next : Consoles Id Data} {action : ConsoleCall Id} {registered : List Id}
  {calls : List (ConsoleCall Id)} {rounds : Nat}

def call (ops : ∀ c, ConsoleOps (Data c)) (rounds : Nat) (consoles : Consoles Id Data) :
    ConsoleCall Id → Outcome (Consoles Id Data)
  | .register c => consoles.consoleRegister c
  | .clear => consoles.consoleClear ops rounds
  | .write msg len => consoles.consoleWrite ops rounds msg len

/-- The runs from `consoles_init` on whose calls return. -/
def consoleMachine (ops : ∀ c, ConsoleOps (Data c)) :
    Machine (Consoles Id Data) (ConsoleCall Id) where
  initial consoles := ∃ before : Consoles Id Data, consoles = before.consolesInit
  step consoles action next := ∃ rounds, consoles.call ops rounds action = .ok next

theorem consoleRegister_eq_ok {c : Option Id} :
    consoles.consoleRegister c = .ok next ↔
      ∃ new, c = some new ∧
        { consoles with links := consoles.links.insert none (some new) } = next := by
  cases c with
  | none => simp [consoleRegister]
  | some new => simp [consoleRegister]

theorem call_message (isMessage : action.IsMessage) :
    consoles.call ops rounds action = .ok next ↔
      ∃ final, consoles.links.forEach (atNode fun c => action.deliver (ops c)) rounds
        (consoles.links none) consoles.data = .ok final ∧
        { consoles with data := final } = next := by
  cases action with
  | register c => exact isMessage.elim
  | clear =>
      rw [call, consoleClear, Outcome.bind_eq_ok]
      simp only [Except.ok.injEq]
      rfl
  | write msg len =>
      rw [call, consoleWrite, Outcome.bind_eq_ok]
      simp only [Except.ok.injEq]
      rfl

/-- The list of the consoles that were registered. -/
def Holds (consoles : Consoles Id Data) (registered : List Id) : Prop :=
  consoles.links.Inserted none (registered.map some)

theorem Holds.step (holds : consoles.Holds registered)
    (stepped : (consoleMachine ops).step consoles action next) :
    next.Holds (action.registers.toList ++ registered) := by
  obtain ⟨rounds, called⟩ := stepped
  cases action with
  | register c =>
      obtain ⟨new, rfl, rfl⟩ := consoleRegister_eq_ok.mp called
      exact holds.insert (Option.some_ne_none new)
  | clear =>
      obtain ⟨final, -, rfl⟩ := (call_message (by trivial)).mp called
      exact holds
  | write msg len =>
      obtain ⟨final, -, rfl⟩ := (call_message (by trivial)).mp called
      exact holds

theorem Holds.message (holds : consoles.Holds registered) (isMessage : action.IsMessage) :
    (consoleMachine ops).step consoles action next ↔
      registered.Nodup ∧ next.links = consoles.links ∧
        (∀ c ∈ registered, action.deliver (ops c) (consoles.data c) = .ok (next.data c)) ∧
        ∀ c ∉ registered, next.data c = consoles.data c := by
  have walked : ∀ final, (∃ rounds, consoles.links.forEach
      (atNode fun c => action.deliver (ops c)) rounds (consoles.links none) consoles.data =
        .ok final) ↔ registered.Nodup ∧
      (∀ c ∈ registered, action.deliver (ops c) (consoles.data c) = .ok (final c)) ∧
        ∀ c ∉ registered, final c = consoles.data c := by
    intro final
    rw [SlistLinks.Inserted.forEach_iff holds,
      List.nodup_map_iff (Option.some_injective Id)]
    exact and_congr_right fun nodup => foldlM_atNode_iff nodup
  constructor
  · rintro ⟨rounds, called⟩
    obtain ⟨final, returned, rfl⟩ := (call_message isMessage).mp called
    obtain ⟨nodup, delivered⟩ := (walked final).mp ⟨rounds, returned⟩
    exact ⟨nodup, rfl, delivered⟩
  · rintro ⟨nodup, same, delivered⟩
    obtain ⟨rounds, returned⟩ := (walked next.data).mpr ⟨nodup, delivered⟩
    refine ⟨rounds, (call_message isMessage).mpr ⟨next.data, returned, ?_⟩⟩
    rw [← same]

/-- A registered console has got every message that returned. -/
theorem Holds.delivers (holds : consoles.Holds registered)
    (stepped : (consoleMachine ops).step consoles action next) {c : Id} (known : c ∈ registered) :
    action.deliver (ops c) (consoles.data c) = .ok (next.data c) := by
  cases action with
  | register new =>
      obtain ⟨rounds, called⟩ := stepped
      obtain ⟨-, -, rfl⟩ := consoleRegister_eq_ok.mp called
      rfl
  | clear => exact ((holds.message (by trivial)).mp stepped).2.2.1 c known
  | write msg len => exact ((holds.message (by trivial)).mp stepped).2.2.1 c known

theorem holds_of_trace (initial : (consoleMachine ops).initial start)
    (trace : (consoleMachine ops).Trace start calls consoles) :
    consoles.Holds (ConsoleCall.registered calls) := by
  induction trace with
  | nil =>
      obtain ⟨before, rfl⟩ := initial
      have ended : before.links.init none none = none := SlistLinks.init_self
      exact SlistLinks.inserted_nil ended
  | snoc _ stepped inductionHypothesis =>
      rw [ConsoleCall.registered_snoc]
      exact inductionHypothesis.step stepped

/-- Consoles that keep what they are told, none of them registered. -/
def recorder (_ : Bool) : ConsoleOps (List Nat) where
  write := some fun msg len data => .ok (data ++ msg.take len)
  clear := none

def recorders : Consoles Bool fun _ => List Nat :=
  consolesInit ⟨fun _ => none, fun _ => []⟩

def oneRecorder (first : Bool) : Consoles Bool fun _ => List Nat :=
  { recorders with links := recorders.links.insert none (some first) }

def twoRecorders (first second : Bool) : Consoles Bool fun _ => List Nat :=
  { recorders with links := (oneRecorder first).links.insert none (some second) }

theorem twoRecorders_trace (first second : Bool) : (consoleMachine recorder).Trace recorders
    [.register (some first), .register (some second)] (twoRecorders first second) := by
  have one : (consoleMachine recorder).step recorders (.register (some first))
      (oneRecorder first) := ⟨0, rfl⟩
  have two : (consoleMachine recorder).step (oneRecorder first) (.register (some second))
      (twoRecorders first second) := ⟨0, rfl⟩
  exact .snoc (.snoc .nil one) two

/-- In every run a message comes to its end if and only if no console was registered twice and
each one takes it; every registered console has then got it once, and nothing else changed. -/
theorem message_iff (initial : (consoleMachine ops).initial start)
    (trace : (consoleMachine ops).Trace start calls consoles) (isMessage : action.IsMessage) :
    (consoleMachine ops).step consoles action next ↔
      (ConsoleCall.registered calls).Nodup ∧ next.links = consoles.links ∧
        (∀ c ∈ ConsoleCall.registered calls,
          action.deliver (ops c) (consoles.data c) = .ok (next.data c)) ∧
        ∀ c ∉ ConsoleCall.registered calls, next.data c = consoles.data c :=
  (holds_of_trace initial trace).message isMessage

/-- Two consoles that are told `"ok"`, and one that is registered twice. -/
theorem message_iff_recorders :
    (consoleMachine recorder).step (twoRecorders false true) (.write [111, 107, 10] 2)
        { twoRecorders false true with data := fun _ => [111, 107] } ∧
      ∀ next, ¬(consoleMachine recorder).step (twoRecorders false false) .clear next := by
  have isWrite : (ConsoleCall.write [111, 107, 10] 2 : ConsoleCall Bool).IsMessage := trivial
  have isClear : (ConsoleCall.clear : ConsoleCall Bool).IsMessage := trivial
  constructor
  · refine (message_iff ⟨_, rfl⟩ (twoRecorders_trace false true) isWrite).mpr
      ⟨by decide, rfl, fun c _ => rfl, fun c absent => ?_⟩
    exact absurd (by cases c <;> decide) absent
  · intro next stepped
    have once :=
      ((message_iff ⟨_, rfl⟩ (twoRecorders_trace false false) isClear).mp stepped).1
    exact absurd once (by decide)

section Screen

variable {screens : Id → ConsoleOps VideoState}
  {first shown after : Consoles Id fun _ => VideoState}
  {msg : List Nat} {len : Nat} {list : List Id} {data final : Id → VideoState}

/-- Consoles in the order of the list, with what they show. -/
def inOrder (screens : Id → ConsoleOps VideoState) (data : Id → VideoState) (list : List Id) :
    List Console :=
  list.map fun c => ⟨(screens c).write, data c⟩

omit [DecidableEq Id] in
theorem consoleWrite_inOrder
    (delivered : ∀ c ∈ list, (screens c).writes msg len (data c) = .ok (final c)) :
    Yaeos.consoleWrite msg len (inOrder screens data list) = .ok (inOrder screens final list) := by
  induction list with
  | nil => rfl
  | cons head rest inductionHypothesis =>
      obtain ⟨here, behind⟩ := List.forall_mem_cons.mp delivered
      have others := inductionHypothesis behind
      rw [ConsoleOps.writes] at here
      rw [Yaeos.consoleWrite, inOrder] at others ⊢
      rw [List.map_cons, List.mapM_cons, others]
      cases written : (screens head).write with
      | none =>
          rw [written] at here
          have same : data head = final head := Except.ok.inj here
          simp [inOrder, written, same]
      | some write =>
          rw [written] at here
          simp [inOrder, written, here]

/-- In every run the walk along the links writes on the consoles in the order of their list. -/
theorem consoleWrite_refines (initial : (consoleMachine screens).initial first)
    (trace : (consoleMachine screens).Trace first calls shown)
    (returned : shown.consoleWrite screens rounds msg len = .ok after) :
    Yaeos.consoleWrite msg len (inOrder screens shown.data (ConsoleCall.registered calls)) =
      .ok (inOrder screens after.data (ConsoleCall.registered calls)) := by
  have isWrite : (ConsoleCall.write msg len : ConsoleCall Id).IsMessage := trivial
  have stepped : (consoleMachine screens).step shown (.write msg len) after := ⟨rounds, returned⟩
  have delivered := ((holds_of_trace initial trace).message isWrite).mp stepped
  exact consoleWrite_inOrder delivered.2.2.1

end Screen

end Consoles

end Yaeos
