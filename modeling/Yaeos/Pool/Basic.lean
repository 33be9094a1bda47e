import Yaeos.Machine.Address
import Yaeos.Slist.Links

/-!
# Memory pools (`lib/mm/pool.c`)

The elements of a pool that are free are the nodes of a list threaded through
their own memory, so a node is named by the address of its element.
-/

namespace Yaeos

inductive PoolNode where
  /-- `pool->nodes`. -/
  | head
  | elem (address : Nat)
  deriving DecidableEq, Repr

/-- `struct mem_pool`, with the words at the addresses of the elements. -/
structure MemPool where
  links : SlistLinks PoolNode
  memStart : Nat
  memEnd : Nat

/-- `sizeof(union node)`, which is its alignment as well. -/
def sizeofPoolNode : Nat := 4

/-- `properly_aligned` of a `union node *`. -/
def properlyAlignedNode (address : Nat) : Prop := checkAlign address sizeofPoolNode

instance (address : Nat) : Decidable (properlyAlignedNode address) :=
  inferInstanceAs (Decidable (checkAlign _ _))

/-- `slist_insert(&current->nodes, &next->nodes)`. -/
def slistInsertElem (links : SlistLinks PoolNode) (current next : Nat) :
    Outcome (SlistLinks PoolNode) := do
  kassert (current ≠ 0)
  kassert (next ≠ 0)
  .ok (links.insert (.elem current) (.elem next))

/-- The loop of `mem_pool_init`. -/
def memPoolInitLoop (stride elemSize limit : Nat) :
    (rounds mblock : Nat) → SlistLinks PoolNode → Outcome (SlistLinks PoolNode)
  | 0, _, _ => .error .unfinished
  | rounds + 1, mblock, links =>
      if wrap (wrap (mblock + stride) + elemSize) ≤ limit then do
        let current := mblock
        let next := wrap (mblock + stride)
        kassert (properlyAlignedNode current)
        kassert (properlyAlignedNode next)
        memPoolInitLoop stride elemSize limit rounds next (← slistInsertElem links current next)
      else .ok links

/-- `links` are the words in memory before the call. -/
def memPoolInit (rounds : Nat) (links : SlistLinks PoolNode)
    (mem memSize elemSize elemAlign : Nat) : Outcome MemPool := do
  kassert (mem ≠ 0)
  kassert (memSize ≥ elemSize)
  let elemSize := max elemSize sizeofPoolNode
  let mblock := alignRoundup mem elemAlign
  let stride := alignRoundup elemSize elemAlign
  let limit := wrap (mem + memSize)
  let links := links.init .head
  kassert (wrap (mblock + elemSize) ≤ limit)
  let node := mblock
  kassert (properlyAlignedNode node)
  kassert (node ≠ 0)
  let links := links.insert .head (.elem node)
  let links ← memPoolInitLoop stride elemSize limit rounds mblock links
  .ok { links := links, memStart := mem, memEnd := limit }

/-- The removal finds the node in its first round. -/
def memPoolAlloc (pool : MemPool) : Outcome (MemPool × Option Nat) :=
  match pool.links .head with
  | none => .ok (pool, none)
  | some .head => .error .outOfBounds
  | some (.elem n) => do
      let links ← pool.links.remove 1 .head (.elem n)
      .ok ({ pool with links := links }, some n)

def memPoolFree (pool : MemPool) (mem : Nat) : Outcome MemPool := do
  kassert (mem ≠ 0)
  kassert (mem ≥ pool.memStart ∧ mem < pool.memEnd)
  kassert (properlyAlignedNode mem)
  .ok { pool with links := pool.links.insert .head (.elem mem) }

end Yaeos
