import Yaeos.Cbuffer.Basic

/-!
# Runs over a circular buffer

`Fifo` is a queue with room for a fixed number of values.  A circular buffer
answers every call as the queue of its contents does, and the log of a run shows
what that means for the values themselves: they leave in the order they came.
-/

namespace Yaeos

namespace Fifo

variable {Value : Type}

/-- A value enters while there is room; the answer tells whether it did. -/
def push (capacity : Nat) (stored : List Value) (value : Value) : List Value × Bool :=
  if stored.length < capacity then (stored ++ [value], true) else (stored, false)

/-- The oldest value leaves; the default answers for an empty queue. -/
def pop (stored : List Value) (defaultval : Value) : List Value × Value :=
  (stored.tail, stored.headD defaultval)

end Fifo

inductive CBufferCall (Value : Type) where
  | push (value : Value)
  | pop (defaultval : Value)
  deriving DecidableEq, Repr

/-- A buffer with the values that successful pushes took and that pops of a
buffer that was not empty yielded, in order. -/
structure CBufferLog (Value : Type) (length : Nat) where
  buffer : CBuffer Value length
  pushed : List Value
  popped : List Value
  deriving DecidableEq, Repr

variable {Value : Type} {length : Nat}

namespace CBufferLog

def call (log : CBufferLog Value length) : CBufferCall Value → Outcome (CBufferLog Value length)
  | .push value => do
      let (buffer, success) ← cbufferPush log.buffer value
      .ok { log with
        buffer := buffer, pushed := if success then log.pushed ++ [value] else log.pushed }
  | .pop defaultval => do
      let (buffer, dest) ← cbufferPop log.buffer defaultval
      .ok { log with
        buffer := buffer
        popped := if log.buffer.count = 0 then log.popped else log.popped ++ [dest] }

end CBufferLog

/-- The runs from `CBUFFER_INIT` on. -/
def cbufferMachine (zero : Value) (length : Nat) :
    Machine (CBufferLog Value length) (CBufferCall Value) :=
  Machine.ofOutcome (· = { buffer := cbufferInit zero length, pushed := [], popped := [] })
    CBufferLog.call

namespace CBuffer

variable {cbuffer : CBuffer Value length}

/-- A push is the push of the queue. -/
theorem Ok.push_fifo (ok : cbuffer.Ok) (value : Value) :
    ∃ next success, cbufferPush cbuffer value = .ok (next, success) ∧ next.Ok ∧
      (next.contents, success) = Fifo.push length cbuffer.contents value ∧
      (success = false → next = cbuffer) := by
  by_cases room : cbuffer.count < length
  · obtain ⟨next, returned, nextOk, added⟩ := ok.push room value
    refine ⟨next, true, returned, nextOk, ?_, nofun⟩
    rw [Fifo.push, if_pos (by rwa [ok.length_contents]), added]
  · have full : cbuffer.count = length := Nat.le_antisymm ok.fits (Nat.le_of_not_lt room)
    refine ⟨cbuffer, false, push_full full value, ok, ?_, fun _ => rfl⟩
    rw [Fifo.push, if_neg (by rwa [ok.length_contents])]

/-- A pop is the pop of the queue. -/
theorem Ok.pop_fifo (ok : cbuffer.Ok) (defaultval : Value) :
    ∃ next dest, cbufferPop cbuffer defaultval = .ok (next, dest) ∧ next.Ok ∧
      (next.contents, dest) = Fifo.pop cbuffer.contents defaultval ∧
      (cbuffer.contents = [] → next = cbuffer) := by
  rcases Nat.eq_zero_or_pos cbuffer.count with empty | stored
  · have none : cbuffer.contents = [] := by
      apply List.length_eq_zero_iff.mp
      rw [ok.length_contents, empty]
    exact ⟨cbuffer, defaultval, pop_empty empty defaultval, ok, by rw [none]; rfl, fun _ => rfl⟩
  · obtain ⟨next, oldest, returned, nextOk, split⟩ := ok.pop stored defaultval
    exact ⟨next, oldest, returned, nextOk, by rw [split]; rfl, by rw [split]; nofun⟩

end CBuffer

namespace CBufferLog

variable {log next : CBufferLog Value length}

/-- What came in and did not leave is stored, in order. -/
structure Ok (log : CBufferLog Value length) : Prop where
  buffer : log.buffer.Ok
  conserved : log.pushed = log.popped ++ log.buffer.contents

theorem Ok.call (ok : log.Ok) (call : CBufferCall Value) (called : log.call call = .ok next) :
    next.Ok := by
  obtain ⟨buffer, conserved⟩ := ok
  cases call with
  | push value =>
      obtain ⟨after, success, returned, afterOk, pushed, unchanged⟩ := buffer.push_fifo value
      simp only [CBufferLog.call, returned, Outcome.ok_bind, Except.ok.injEq] at called
      subst called
      refine ⟨afterOk, ?_⟩
      cases success with
      | false =>
          rw [unchanged rfl]
          exact conserved
      | true =>
          have added : after.contents = log.buffer.contents ++ [value] := by
            unfold Fifo.push at pushed
            split at pushed
            · exact congrArg Prod.fst pushed
            · cases congrArg Prod.snd pushed
          show log.pushed ++ [value] = log.popped ++ after.contents
          rw [conserved, added, List.append_assoc]
  | pop defaultval =>
      rcases Nat.eq_zero_or_pos log.buffer.count with empty | stored
      · simp only [CBufferLog.call, CBuffer.pop_empty empty, Outcome.ok_bind, empty, if_true,
          Except.ok.injEq] at called
        subst called
        exact ⟨buffer, conserved⟩
      · obtain ⟨after, oldest, returned, afterOk, split⟩ := buffer.pop stored defaultval
        simp only [CBufferLog.call, returned, Outcome.ok_bind, stored.ne', if_false,
          Except.ok.injEq] at called
        subst called
        refine ⟨afterOk, ?_⟩
        show log.pushed = log.popped ++ [oldest] ++ after.contents
        rw [conserved, split, List.append_assoc, List.singleton_append]

theorem ok_of_reachable {zero : Value} (positive : 0 < length)
    (reached : (cbufferMachine zero length).Reachable log) : log.Ok := by
  have base : ∀ state, (cbufferMachine zero length).initial state → state.Ok := by
    rintro _ rfl
    exact ⟨CBuffer.cbufferInit_ok zero positive, rfl⟩
  have preserved : ∀ state action next, Ok state →
      (cbufferMachine zero length).step state action next → next.Ok :=
    fun _ action _ ok called => ok.call action called
  exact reached.invariant base preserved

/-- In every reached state a call returns and answers as the queue of the stored
values does, a call that fails leaves the buffer as it is, and what was popped is
the beginning of what was pushed. -/
theorem cbuffer_is_fifo (positive : 0 < length) (zero : Value)
    (reached : (cbufferMachine zero length).Reachable log) :
    (∀ value, ∃ after success, cbufferPush log.buffer value = .ok (after, success) ∧
      (success = true ↔ log.buffer.contents.length < length) ∧
      (after.contents, success) = Fifo.push length log.buffer.contents value ∧
      (success = false → after = log.buffer)) ∧
    (∀ defaultval, ∃ after dest, cbufferPop log.buffer defaultval = .ok (after, dest) ∧
      (after.contents, dest) = Fifo.pop log.buffer.contents defaultval ∧
      (log.buffer.contents = [] → after = log.buffer ∧ dest = defaultval)) ∧
    log.pushed = log.popped ++ log.buffer.contents ∧ log.popped <+: log.pushed := by
  obtain ⟨buffer, conserved⟩ := ok_of_reachable positive reached
  refine ⟨?_, ?_, conserved, log.buffer.contents, conserved.symm⟩
  · intro value
    obtain ⟨after, success, returned, -, pushed, unchanged⟩ := buffer.push_fifo value
    refine ⟨after, success, returned, ?_, pushed, unchanged⟩
    unfold Fifo.push at pushed
    split at pushed
    · next room => exact iff_of_true (congrArg Prod.snd pushed) room
    · next full =>
        have failed : success = false := congrArg Prod.snd pushed
        exact iff_of_false (by simp [failed]) full
  · intro defaultval
    obtain ⟨after, dest, returned, -, popped, unchanged⟩ := buffer.pop_fifo defaultval
    refine ⟨after, dest, returned, popped, fun empty => ⟨unchanged empty, ?_⟩⟩
    rw [empty] at popped
    exact congrArg Prod.snd popped

/-- Two slots, three pushes, a pop and the push that wraps around. -/
theorem cbuffer_is_fifo_wrapped :
    ∃ log, (cbufferMachine 0 2).Reachable log ∧ log.pushed = [5, 6, 8] ∧
      log.popped <+: log.pushed := by
  have executed : Machine.execute (fun _ _ => True) CBufferLog.call
      [.push 5, .push 6, .push 7, .pop 0, .push 8]
      { buffer := cbufferInit 0 2, pushed := [], popped := [] } =
        some { buffer := { rIdx := 1, wIdx := 1, count := 2, array := #v[8, 6] },
               pushed := [5, 6, 8], popped := [5] } := by
    decide +kernel
  have start : (cbufferMachine 0 2).Reachable
      { buffer := cbufferInit 0 2, pushed := [], popped := [] } := .initial rfl
  have reached := start.execute (fun _ _ _ _ called => called) executed
  exact ⟨_, reached, rfl, (cbuffer_is_fifo (by decide) 0 reached).2.2.2⟩

end CBufferLog

end Yaeos
