import Yaeos.Machine.Address
import Yaeos.Machine.Outcome

/-!
# The linear allocator (`lib/mm/linear.c`)

Memory is handed out from `position` upwards until `limit`; a `NULL` result is
`none` and leaves the allocator as it was.
-/

namespace Yaeos

structure LinearAlloc where
  base : Nat
  position : Nat
  limit : Nat
  deriving DecidableEq, Repr

def linearAllocInit (mem len : Nat) : Outcome LinearAlloc := do
  kassert (mem ≠ 0)
  kassert (len > 0)
  .ok { base := mem, limit := wrap (mem + len), position := mem }

def linearAllocAlloc (alloc : LinearAlloc) (len : Nat) : LinearAlloc × Option Nat :=
  let pos := alloc.position
  if wrap (pos + len) > alloc.limit then (alloc, none)
  else ({ alloc with position := wrap (pos + len) }, some pos)

def linearAllocAllocAligned (alloc : LinearAlloc) (len align : Nat) :
    Outcome (LinearAlloc × Option Nat) := do
  kassert (align > 0)
  let pos := alignRoundup alloc.position align
  if wrap (pos + len) ≥ alloc.limit then .ok (alloc, none)
  else .ok ({ alloc with position := wrap (pos + len) }, some pos)

def linearAllocOccupied (alloc : LinearAlloc) : Nat := wrapSub alloc.position alloc.base

def linearForbidFurtherAlloc (alloc : LinearAlloc) : LinearAlloc :=
  { alloc with limit := alloc.position }

namespace LinearAlloc

variable {alloc : LinearAlloc} {len : Nat}

/-- The bytes up to the limit are addresses of the machine. -/
structure Ready (alloc : LinearAlloc) : Prop where
  ordered : alloc.base ≤ alloc.position
  inside : alloc.limit < addressSpace

/-- The allocator after `len` more bytes are taken. -/
def advance (alloc : LinearAlloc) (len : Nat) : LinearAlloc :=
  { alloc with position := alloc.position + len }

theorem Ready.advance (ready : alloc.Ready) : (alloc.advance len).Ready :=
  ⟨Nat.le_trans ready.ordered (Nat.le_add_right _ _), ready.inside⟩

/-- An allocation that fits gets the bytes from the position on. -/
theorem Ready.alloc_eq (ready : alloc.Ready) (fits : alloc.position + len ≤ alloc.limit) :
    linearAllocAlloc alloc len = (alloc.advance len, some alloc.position) := by
  have inside := ready.inside
  have sum : wrap (alloc.position + len) = alloc.position + len := wrap_of_lt (by omega)
  simp only [linearAllocAlloc, sum, if_neg (Nat.not_lt.mpr fits), LinearAlloc.advance]

theorem Ready.occupied_eq (ready : alloc.Ready) (fits : alloc.position ≤ alloc.limit) :
    linearAllocOccupied alloc = alloc.position - alloc.base :=
  wrapSub_of_le ready.ordered (Nat.lt_of_le_of_lt fits ready.inside)

end LinearAlloc

end Yaeos
