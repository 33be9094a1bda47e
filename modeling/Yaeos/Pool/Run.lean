import Yaeos.Machine.Run
import Yaeos.Pool.Basic
import Mathlib.Data.List.Perm.Basic
import Mathlib.Data.List.Range
import Mathlib.Order.Bounds.Basic

/-!
# Runs over a memory pool

The elements of a pool start at the first aligned address of its block and lie one
stride apart.  In every run each of them is either on the free list or live.  The
memory of a live element is its owner's, so an owner may write any link there.
-/

namespace Yaeos

/-- The block a pool is made of, and the elements asked for; the alignment is a
power of two and at least that of a pointer. -/
structure PoolParams where
  mem : Nat
  memSize : Nat
  elemSize : Nat
  power : Nat
  aligned : 2 ≤ power

namespace PoolParams

def align (params : PoolParams) : Nat := 2 ^ params.power

/-- The bytes an element has at least. -/
def size (params : PoolParams) : Nat := max params.elemSize sizeofPoolNode

/-- The least multiple of the alignment that an element fits in. -/
def stride (params : PoolParams) : Nat :=
  (params.size + (params.align - 1)) / params.align * params.align

/-- The first aligned address of the block. -/
def first (params : PoolParams) : Nat :=
  (params.mem + (params.align - 1)) / params.align * params.align

def limit (params : PoolParams) : Nat := params.mem + params.memSize

/-- The number of strides whose elements lie in the block. -/
def count (params : PoolParams) : Nat :=
  (params.limit - params.size - params.first) / params.stride + 1

/-- The address of an element. -/
def place (params : PoolParams) (ndx : Nat) : Nat := params.first + ndx * params.stride

/-- The block and one stride more do not reach around the address space. -/
def NoWrap (params : PoolParams) : Prop := params.limit + params.stride < addressSpace

/-- `mem_pool_init`. -/
def init (params : PoolParams) (rounds : Nat) (links : SlistLinks PoolNode) : Outcome MemPool :=
  memPoolInit rounds links params.mem params.memSize params.elemSize params.align

variable {params : PoolParams}

theorem align_pos (params : PoolParams) : 0 < params.align := Nat.two_pow_pos _

theorem size_ge (params : PoolParams) : 4 ≤ params.size := Nat.le_max_right ..

theorem stride_spec (params : PoolParams) : RoundedUp params.size params.align params.stride :=
  roundedUp_div _ params.align_pos

theorem first_spec (params : PoolParams) : RoundedUp params.mem params.align params.first :=
  roundedUp_div _ params.align_pos

theorem align_le_stride (params : PoolParams) : params.align ≤ params.stride := by
  have size := params.size_ge
  have stride := params.stride_spec
  exact Nat.le_of_dvd (by have := stride.ge; omega) stride.aligned

theorem stride_pos (params : PoolParams) : 0 < params.stride :=
  Nat.lt_of_lt_of_le params.align_pos params.align_le_stride

theorem align_dvd_place (params : PoolParams) (ndx : Nat) : params.align ∣ params.place ndx :=
  Nat.dvd_add params.first_spec.aligned (Dvd.dvd.mul_left params.stride_spec.aligned ndx)

theorem place_zero (params : PoolParams) : params.place 0 = params.first := by
  rw [place, Nat.zero_mul, Nat.add_zero]

theorem place_succ (params : PoolParams) (ndx : Nat) :
    params.place (ndx + 1) = params.place ndx + params.stride := by
  unfold place
  rw [Nat.succ_mul, Nat.add_assoc]

/-- An element lies in the block exactly when its number is below the count. -/
theorem place_fits (room : params.first + params.size ≤ params.limit) (ndx : Nat) :
    params.place ndx + params.size ≤ params.limit ↔ ndx < params.count := by
  unfold count
  rw [Nat.lt_succ_iff, Nat.le_div_iff_mul_le params.stride_pos]
  unfold place
  omega

theorem place_add_size_le (params : PoolParams) {ndx other : Nat} (before : ndx < other) :
    params.place ndx + params.size ≤ params.place other := by
  have stride := params.stride_spec.ge
  have steps : (ndx + 1) * params.stride ≤ other * params.stride :=
    Nat.mul_le_mul_right _ before
  rw [Nat.succ_mul] at steps
  unfold place
  omega

theorem place_injective (params : PoolParams) : Function.Injective params.place := by
  have size := params.size_ge
  intro ndx other same
  rcases Nat.lt_trichotomy ndx other with before | equal | behind
  · have apart := params.place_add_size_le before
    omega
  · exact equal
  · have apart := params.place_add_size_le behind
    omega

/-- No other alignment of the block has room for more elements. -/
theorem count_greatest (room : params.first + params.size ≤ params.limit) :
    IsGreatest {number | ∃ base, params.align ∣ base ∧ params.mem ≤ base ∧
      ∀ ndx < number, base + ndx * params.stride + params.size ≤ params.limit} params.count := by
  refine ⟨⟨params.first, params.first_spec.aligned, params.first_spec.ge, fun ndx below =>
    (place_fits room ndx).mpr below⟩, ?_⟩
  rintro number ⟨base, aligned, inside, fits⟩
  cases number with
  | zero => exact Nat.zero_le _
  | succ ndx =>
      have least := params.first_spec.least base aligned inside
      have last := fits ndx (Nat.lt_succ_self ndx)
      apply (place_fits room ndx).mp
      unfold place
      omega

/-- The nodes of the first elements, in the order of their addresses. -/
def nodes (params : PoolParams) (number : Nat) : List PoolNode :=
  (List.range number).map fun ndx => .elem (params.place ndx)

theorem nodes_succ (params : PoolParams) (number : Nat) :
    params.nodes (number + 1) = params.nodes number ++ [.elem (params.place number)] := by
  simp [nodes, List.range_succ]

theorem elem_mem_nodes {number ndx : Nat} :
    PoolNode.elem (params.place ndx) ∈ params.nodes number ↔ ndx < number := by
  simp only [nodes, List.mem_map, List.mem_range, PoolNode.elem.injEq]
  constructor
  · rintro ⟨other, below, same⟩
    rwa [← params.place_injective same]
  · exact fun below => ⟨ndx, below, rfl⟩

theorem place_lt_of_fits (noWrap : params.NoWrap) {ndx : Nat}
    (fits : params.place ndx + params.size ≤ params.limit) :
    params.place (ndx + 1) + params.size < addressSpace := by
  rw [place_succ]
  unfold NoWrap at noWrap
  omega

theorem properlyAligned_place (params : PoolParams) {ndx : Nat}
    (inside : params.place ndx < addressSpace) : properlyAlignedNode (params.place ndx) := by
  have unit : (2 ^ 2 : Nat) ∣ params.align := Nat.pow_dvd_pow 2 params.aligned
  exact (checkAlign_two_pow inside (by decide)).mpr (unit.trans (params.align_dvd_place ndx))

/-- The loop threads one element after the other until the next one does not fit. -/
theorem initLoop_spec (noWrap : params.NoWrap) (named : params.mem ≠ 0)
    (room : params.first + params.size ≤ params.limit) (rounds : Nat) {ndx : Nat}
    {links : SlistLinks PoolNode} (below : ndx < params.count)
    (chain : links.Chain .head (params.nodes (ndx + 1))) :
    (memPoolInitLoop params.stride params.size params.limit rounds (params.place ndx) links =
        .error .unfinished ∧ rounds + ndx < params.count) ∨
      ∃ final, memPoolInitLoop params.stride params.size params.limit rounds (params.place ndx)
        links = .ok final ∧ final.Chain .head (params.nodes params.count) := by
  induction rounds generalizing ndx links with
  | zero => exact Or.inl ⟨rfl, by omega⟩
  | succ rounds inductionHypothesis =>
      have fits := (place_fits room ndx).mpr below
      have inside := place_lt_of_fits noWrap fits
      have there : params.place (ndx + 1) < addressSpace :=
        Nat.lt_of_le_of_lt (Nat.le_add_right ..) inside
      have next : wrap (params.place ndx + params.stride) = params.place (ndx + 1) := by
        rw [← place_succ, wrap_of_lt there]
      have here : params.place ndx < addressSpace := by
        rw [place_succ] at there
        omega
      have hereAligned := params.properlyAligned_place here
      have thereAligned := params.properlyAligned_place there
      have sum : wrap (params.place (ndx + 1) + params.size) = params.place (ndx + 1) + params.size :=
        wrap_of_lt inside
      by_cases more : ndx + 1 < params.count
      · have nextFits := (place_fits room (ndx + 1)).mpr more
        have last : (params.nodes (ndx + 1)).getLastD .head = .elem (params.place ndx) := by
          rw [nodes_succ, List.getLastD_concat]
        have fresh : PoolNode.elem (params.place (ndx + 1)) ∉ .head :: params.nodes (ndx + 1) := by
          simp [elem_mem_nodes]
        have longer := chain.append fresh
        rw [last, ← nodes_succ] at longer
        have current : params.place ndx ≠ 0 := by
          have first := params.first_spec.ge
          unfold place
          omega
        have nonzero : params.place (ndx + 1) ≠ 0 := by
          have stride := params.stride_pos
          rw [place_succ]
          omega
        have stepped : memPoolInitLoop params.stride params.size params.limit (rounds + 1)
            (params.place ndx) links = memPoolInitLoop params.stride params.size params.limit rounds
              (params.place (ndx + 1))
              (links.insert (.elem (params.place ndx)) (.elem (params.place (ndx + 1)))) := by
          simp [memPoolInitLoop, next, sum, nextFits, slistInsertElem, kassert_ok hereAligned,
            kassert_ok thereAligned, kassert_ok current, kassert_ok nonzero]
        rw [stepped]
        rcases inductionHypothesis more longer with ⟨unfinished, short⟩ | finished
        · exact Or.inl ⟨unfinished, by omega⟩
        · exact Or.inr finished
      · have ended : ¬params.place (ndx + 1) + params.size ≤ params.limit :=
          fun fits => more ((place_fits room (ndx + 1)).mp fits)
        have all : ndx + 1 = params.count := by omega
        refine Or.inr ⟨links, ?_, all ▸ chain⟩
        rw [memPoolInitLoop, next, sum, if_neg ended]

/-- What `mem_pool_init` computes before its loop. -/
theorem init_eq (noWrap : params.NoWrap) (named : params.mem ≠ 0)
    (large : params.elemSize ≤ params.memSize) (rounds : Nat) (links : SlistLinks PoolNode) :
    params.init rounds links = (do
      kassert (wrap (params.first + params.size) ≤ params.limit)
      kassert (params.first ≠ 0)
      let links ← memPoolInitLoop params.stride params.size params.limit rounds params.first
        ((links.init .head).insert .head (.elem params.first))
      .ok { links := links, memStart := params.mem, memEnd := params.limit }) := by
  have size := params.size_ge
  have alignStride := params.align_le_stride
  have fitsStride := params.stride_spec.ge
  have positive := params.align_pos
  have wide : params.limit + params.stride < addressSpace := noWrap
  have limit : params.limit = params.mem + params.memSize := rfl
  have power : params.power < 32 := by
    refine (Nat.pow_lt_pow_iff_right (show 1 < 2 by decide)).mp ?_
    show params.align < addressSpace
    omega
  have half : params.align ≤ 2 ^ 31 := Nat.pow_le_pow_right (by decide) (by omega)
  have small : params.size + (params.align - 1) < addressSpace := by
    have sizes : params.size = 4 ∨ params.size = params.elemSize := by
      unfold PoolParams.size sizeofPoolNode
      omega
    rcases sizes with four | same
    · unfold addressSpace
      omega
    · omega
  have first : alignRoundup params.mem params.align = params.first :=
    alignRoundup_two_pow power (show params.mem + (params.align - 1) < addressSpace by omega)
  have stride : alignRoundup params.size params.align = params.stride :=
    alignRoundup_two_pow power small
  have ends : wrap (params.mem + params.memSize) = params.limit := wrap_of_lt (by omega)
  have inside : params.first < addressSpace := by
    have below := params.first_spec.lt positive
    omega
  have aligned : properlyAlignedNode params.first := by
    rw [← place_zero] at inside ⊢
    exact params.properlyAligned_place inside
  simp only [init, memPoolInit, kassert_ok named, kassert_ok (show params.memSize ≥ params.elemSize from large),
    Outcome.ok_bind, first, ends, kassert_ok aligned]
  simp only [show max params.elemSize sizeofPoolNode = params.size from rfl, stride]

/-- An element that ends at the top of the address space passes the assertion
about its end, but then the next one would be at `NULL`. -/
theorem initLoop_top (top : params.first + params.size = addressSpace)
    (unit : params.stride = params.size) (four : params.size = 4)
    (high : 4 ≤ params.limit) (rounds : Nat) (links final : SlistLinks PoolNode) :
    memPoolInitLoop params.stride params.size params.limit rounds params.first links ≠
      .ok final := by
  cases rounds with
  | zero => nofun
  | succ rounds =>
      have next : wrap (params.first + params.stride) = 0 := by
        rw [unit, top]
        rfl
      have sum : wrap (0 + params.size) ≤ params.limit := by
        rw [four]
        exact high
      intro returned
      rw [memPoolInitLoop, next, if_pos sum] at returned
      obtain ⟨_, -, returned⟩ := Outcome.bind_eq_ok.mp returned
      obtain ⟨_, -, returned⟩ := Outcome.bind_eq_ok.mp returned
      obtain ⟨links, inserted, -⟩ := Outcome.bind_eq_ok.mp returned
      obtain ⟨_, -, inserted⟩ := Outcome.bind_eq_ok.mp inserted
      obtain ⟨_, nonzero, -⟩ := Outcome.bind_eq_ok.mp inserted
      exact kassert_eq_ok.mp nonzero rfl

/-- What the assertions of `mem_pool_init` promise. -/
theorem room_of_init (noWrap : params.NoWrap) {rounds : Nat} {links : SlistLinks PoolNode}
    {pool : MemPool} (accepted : params.init rounds links = .ok pool) :
    params.mem ≠ 0 ∧ params.elemSize ≤ params.memSize ∧
      params.first + params.size ≤ params.limit := by
  have start := accepted
  obtain ⟨_, named, start⟩ := Outcome.bind_eq_ok.mp start
  obtain ⟨_, large, -⟩ := Outcome.bind_eq_ok.mp start
  have named := kassert_eq_ok.mp named
  have large : params.elemSize ≤ params.memSize := kassert_eq_ok.mp large
  refine ⟨named, large, ?_⟩
  rw [init_eq noWrap named large] at accepted
  obtain ⟨_, room, accepted⟩ := Outcome.bind_eq_ok.mp accepted
  obtain ⟨_, -, accepted⟩ := Outcome.bind_eq_ok.mp accepted
  obtain ⟨final, looped, -⟩ := Outcome.bind_eq_ok.mp accepted
  have room := kassert_eq_ok.mp room
  by_cases inside : params.first + params.size < addressSpace
  · rwa [wrap_of_lt inside] at room
  · exfalso
    have wide : params.limit + params.stride < addressSpace := noWrap
    have limit : params.limit = params.mem + params.memSize := rfl
    have alignStride := params.align_le_stride
    have below := params.first_spec.lt params.align_pos
    have four : params.size = 4 := by
      have sizes : params.size = 4 ∨ params.size = params.elemSize := by
        unfold PoolParams.size sizeofPoolNode
        omega
      rcases sizes with four | same
      · exact four
      · omega
    -- the first address is a multiple of the alignment and has four bytes above it
    have power : params.power < 32 := by
      refine (Nat.pow_lt_pow_iff_right (show 1 < 2 by decide)).mp ?_
      show params.align < addressSpace
      omega
    have unit : params.align ∣ addressSpace := Nat.pow_dvd_pow 2 (by omega)
    have gap : params.align ≤ addressSpace - params.first :=
      Nat.le_of_dvd (by omega) (Nat.dvd_sub unit params.first_spec.aligned)
    have least : 2 ^ 2 ≤ params.align := Nat.pow_le_pow_right Nat.two_pos params.aligned
    have align : params.align = 4 := by omega
    have stride : params.stride = params.size := by
      have rounded := params.stride_spec.least 4 (align ▸ Nat.dvd_refl 4) (by omega)
      have atLeast := params.stride_spec.ge
      omega
    have high : 4 ≤ params.limit := by
      unfold addressSpace at *
      omega
    exact initLoop_top (by omega) stride four high rounds _ final looped

/-- The free list before the loop. -/
theorem chain_first (params : PoolParams) (links : SlistLinks PoolNode) :
    ((links.init .head).insert .head (.elem (params.place 0))).Chain .head (params.nodes 1) :=
  SlistLinks.chain_init.insert (by simp)

theorem init_ok (noWrap : params.NoWrap) {rounds : Nat} {links : SlistLinks PoolNode}
    {pool : MemPool} (accepted : params.init rounds links = .ok pool) :
    pool.memStart = params.mem ∧ pool.memEnd = params.limit ∧
      pool.links.Chain .head (params.nodes params.count) := by
  obtain ⟨named, large, room⟩ := room_of_init noWrap accepted
  rw [init_eq noWrap named large] at accepted
  obtain ⟨_, -, accepted⟩ := Outcome.bind_eq_ok.mp accepted
  obtain ⟨_, -, accepted⟩ := Outcome.bind_eq_ok.mp accepted
  obtain ⟨final, looped, result⟩ := Outcome.bind_eq_ok.mp accepted
  cases result
  rw [← params.place_zero] at looped
  rcases initLoop_spec noWrap named room rounds (Nat.succ_pos _) (params.chain_first links) with
    ⟨unfinished, -⟩ | ⟨expected, returned, chain⟩
  · cases looped.symm.trans unfinished
  · cases looped.symm.trans returned
    exact ⟨rfl, rfl, chain⟩

/-- With a round for every element `mem_pool_init` returns when its first element
lies in the block. -/
theorem init_returns (noWrap : params.NoWrap) (named : params.mem ≠ 0)
    (large : params.elemSize ≤ params.memSize) (room : params.first + params.size ≤ params.limit)
    {rounds : Nat} (enough : params.count ≤ rounds) (links : SlistLinks PoolNode) :
    ∃ pool, params.init rounds links = .ok pool := by
  have size := params.size_ge
  have first := params.first_spec.ge
  have wide : params.limit + params.stride < addressSpace := noWrap
  rw [init_eq noWrap named large, wrap_of_lt (by omega), kassert_ok room,
    kassert_ok (show params.first ≠ 0 by omega)]
  rcases initLoop_spec noWrap named room rounds (Nat.succ_pos _) (params.chain_first links) with
    ⟨-, short⟩ | ⟨final, returned, -⟩
  · omega
  · rw [place_zero] at returned
    exact ⟨{ links := final, memStart := params.mem, memEnd := params.limit }, by simp [returned]⟩

end PoolParams

/-- A pool with its live elements. -/
structure PoolSystem where
  pool : MemPool
  live : List Nat

inductive PoolCall where
  | alloc
  | free (mem : Nat)
  /-- The owner of an element writes to its memory. -/
  | write (mem : Nat) (word : Option PoolNode)
  deriving DecidableEq, Repr

namespace PoolSystem

def call (system : PoolSystem) : PoolCall → Outcome PoolSystem
  | .alloc => do
      let (pool, mem) ← memPoolAlloc system.pool
      .ok { pool := pool, live := mem.toList ++ system.live }
  | .free mem => do
      let pool ← memPoolFree system.pool mem
      .ok { pool := pool, live := system.live.erase mem }
  | .write mem word =>
      .ok { system with pool :=
        { system.pool with links := Function.update system.pool.links (.elem mem) word } }

/-- Only live elements are freed and written. -/
def Legal (system : PoolSystem) : PoolCall → Prop
  | .alloc => True
  | .free mem => mem ∈ system.live
  | .write mem _ => mem ∈ system.live

instance (system : PoolSystem) : (call : PoolCall) → Decidable (system.Legal call)
  | .alloc => inferInstanceAs (Decidable True)
  | .free _ => inferInstanceAs (Decidable (_ ∈ _))
  | .write _ _ => inferInstanceAs (Decidable (_ ∈ _))

end PoolSystem

/-- The runs from `mem_pool_init` on. -/
def poolMachine (params : PoolParams) : Machine PoolSystem PoolCall where
  initial system := ∃ rounds links, params.init rounds links = .ok system.pool ∧ system.live = []
  step system call next := system.Legal call ∧ system.call call = .ok next

namespace PoolSystem

variable {params : PoolParams} {system next : PoolSystem} {spare : List Nat}

/-- The addresses of all elements. -/
def elements (params : PoolParams) : List Nat := (List.range params.count).map params.place

/-- Each element is free or live. -/
structure Ok (params : PoolParams) (system : PoolSystem) (spare : List Nat) : Prop where
  memStart : system.pool.memStart = params.mem
  memEnd : system.pool.memEnd = params.limit
  chain : system.pool.links.Chain .head (spare.map .elem)
  conserved : (spare ++ system.live).Perm (elements params)

theorem nodup_elements (params : PoolParams) : (elements params).Nodup :=
  List.nodup_range.map params.place_injective

theorem Ok.nodup (ok : system.Ok params spare) : (spare ++ system.live).Nodup :=
  ok.conserved.nodup_iff.mpr (nodup_elements params)

/-- Where a live element lies. -/
structure Placed (params : PoolParams) (mem : Nat) : Prop where
  aligned : params.align ∣ mem
  inside : params.mem ≤ mem ∧ mem + params.size ≤ params.limit

theorem placed_of_mem (room : params.first + params.size ≤ params.limit) {mem : Nat}
    (member : mem ∈ elements params) : Placed params mem := by
  obtain ⟨ndx, below, rfl⟩ := List.mem_map.mp member
  refine ⟨params.align_dvd_place ndx, ?_,
    (PoolParams.place_fits room ndx).mpr (List.mem_range.mp below)⟩
  exact params.first_spec.ge.trans (Nat.le_add_right ..)

/-- Two elements share no byte. -/
theorem apart_of_mem {mem other : Nat} (member : mem ∈ elements params)
    (otherMember : other ∈ elements params) (differs : mem ≠ other) :
    mem + params.size ≤ other ∨ other + params.size ≤ mem := by
  obtain ⟨ndx, -, rfl⟩ := List.mem_map.mp member
  obtain ⟨ndx', -, rfl⟩ := List.mem_map.mp otherMember
  rcases Nat.lt_trichotomy ndx ndx' with before | rfl | behind
  · exact Or.inl (params.place_add_size_le before)
  · exact absurd rfl differs
  · exact Or.inr (params.place_add_size_le behind)

theorem Ok.alloc (ok : system.Ok params spare) :
    (spare = [] ∧ memPoolAlloc system.pool = .ok (system.pool, none)) ∨
    ∃ mem rest pool, spare = mem :: rest ∧ memPoolAlloc system.pool = .ok (pool, some mem) ∧
      Ok params { pool := pool, live := mem :: system.live } rest := by
  cases spare with
  | nil =>
      have empty : system.pool.links .head = none := ok.chain
      exact Or.inl ⟨rfl, by simp [memPoolAlloc, empty]⟩
  | cons mem rest =>
      have first : system.pool.links .head = some (.elem mem) := ok.chain.1
      obtain ⟨links, removed, tail, -⟩ := ok.chain.remove_first Nat.one_pos
      refine Or.inr ⟨mem, rest, { system.pool with links := links }, rfl, ?_, ?_⟩
      · simp [memPoolAlloc, first, removed]
      · exact ⟨ok.memStart, ok.memEnd, tail, List.perm_middle.trans ok.conserved⟩

theorem Ok.free (ok : system.Ok params spare) (named : params.mem ≠ 0) (noWrap : params.NoWrap)
    (room : params.first + params.size ≤ params.limit) {mem : Nat} (live : mem ∈ system.live) :
    ∃ pool, memPoolFree system.pool mem = .ok pool ∧
      Ok params { pool := pool, live := system.live.erase mem } (mem :: spare) := by
  have member : mem ∈ elements params := ok.conserved.mem_iff.mp (List.mem_append_right _ live)
  obtain ⟨-, start, finish⟩ := placed_of_mem room member
  have size := params.size_ge
  have wide : params.limit + params.stride < addressSpace := noWrap
  have aligned : properlyAlignedNode mem := by
    obtain ⟨ndx, -, rfl⟩ := List.mem_map.mp member
    exact params.properlyAligned_place (by omega)
  have fresh : mem ∉ spare := fun inFree =>
    (List.nodup_append.mp ok.nodup).2.2 mem inFree mem live rfl
  have within : mem ≥ system.pool.memStart ∧ mem < system.pool.memEnd := by
    rw [ok.memStart, ok.memEnd]
    omega
  refine ⟨{ system.pool with links := system.pool.links.insert .head (.elem mem) }, ?_,
    ok.memStart, ok.memEnd, ok.chain.insert (by simpa using fresh), ?_⟩
  · simp [memPoolFree, kassert_ok (show mem ≠ 0 by omega), kassert_ok within, kassert_ok aligned]
  · have moved : (spare ++ system.live).Perm (spare ++ mem :: system.live.erase mem) :=
      (List.perm_cons_erase live).append_left _
    exact (List.perm_middle.symm.trans moved.symm).trans ok.conserved

theorem Ok.write (ok : system.Ok params spare) {mem : Nat} (live : mem ∈ system.live)
    (word : Option PoolNode) :
    Ok params { system with pool :=
      { system.pool with links := Function.update system.pool.links (.elem mem) word } } spare := by
  refine ⟨ok.memStart, ok.memEnd, ok.chain.congr fun member onChain => ?_, ok.conserved⟩
  refine Function.update_of_ne ?_ ..
  rintro rfl
  have inFree : mem ∈ spare := by simpa using onChain
  exact (List.nodup_append.mp ok.nodup).2.2 mem inFree mem live rfl

theorem Ok.call (ok : system.Ok params spare) (named : params.mem ≠ 0) (noWrap : params.NoWrap)
    (room : params.first + params.size ≤ params.limit) (call : PoolCall) (legal : system.Legal call)
    (returned : system.call call = .ok next) : ∃ spare, next.Ok params spare := by
  cases call with
  | alloc =>
      obtain ⟨⟨pool, mem⟩, called, rest⟩ := Outcome.bind_eq_ok.mp returned
      cases rest
      rcases ok.alloc with ⟨-, expected⟩ | ⟨mem, rest, after, -, expected, afterOk⟩
      · cases called.symm.trans expected
        exact ⟨spare, ok⟩
      · cases called.symm.trans expected
        exact ⟨rest, afterOk⟩
  | free mem =>
      obtain ⟨pool, called, rest⟩ := Outcome.bind_eq_ok.mp returned
      cases rest
      obtain ⟨after, expected, afterOk⟩ := ok.free named noWrap room legal
      cases called.symm.trans expected
      exact ⟨_, afterOk⟩
  | write mem word =>
      cases returned
      exact ⟨spare, ok.write legal word⟩

theorem ok_of_reachable (noWrap : params.NoWrap) (reached : (poolMachine params).Reachable system) :
    params.mem ≠ 0 ∧ params.first + params.size ≤ params.limit ∧ ∃ spare, system.Ok params spare := by
  have base : ∀ state, (poolMachine params).initial state → params.mem ≠ 0 ∧
      params.first + params.size ≤ params.limit ∧ ∃ spare, state.Ok params spare := by
    rintro ⟨pool, live⟩ ⟨rounds, links, accepted, empty⟩
    obtain ⟨named, -, room⟩ := PoolParams.room_of_init noWrap accepted
    obtain ⟨memStart, memEnd, chain⟩ := PoolParams.init_ok noWrap accepted
    refine ⟨named, room, elements params, memStart, memEnd, ?_, ?_⟩
    · rwa [elements, List.map_map]
    · rw [show live = [] from empty, List.append_nil]
  have preserved : ∀ state action next, (params.mem ≠ 0 ∧
      params.first + params.size ≤ params.limit ∧ ∃ spare, Ok params state spare) →
      (poolMachine params).step state action next → params.mem ≠ 0 ∧
        params.first + params.size ≤ params.limit ∧ ∃ spare, next.Ok params spare := by
    rintro state action next ⟨named, room, spare, ok⟩ ⟨legal, returned⟩
    exact ⟨named, room, ok.call named noWrap room action legal returned⟩
  exact reached.invariant base preserved

/-- In every reached state the live elements are aligned, lie in the block and share
no byte; an allocation answers `NULL` exactly when all elements are live and hands
out one that is not live otherwise; a live element can be freed; and the elements
on the free list and the live ones are all that fit. -/
theorem elements_of_reachable (noWrap : params.NoWrap)
    (reached : (poolMachine params).Reachable system) :
    (∀ mem ∈ system.live, params.align ∣ mem ∧ params.mem ≤ mem ∧
      mem + max params.elemSize sizeofPoolNode ≤ params.mem + params.memSize) ∧
    (system.live.Pairwise fun mem other =>
      mem + max params.elemSize sizeofPoolNode ≤ other ∨
        other + max params.elemSize sizeofPoolNode ≤ mem) ∧
    (∃ pool answer, memPoolAlloc system.pool = .ok (pool, answer) ∧
      (answer = none ↔ system.live.length = params.count) ∧
      ∀ mem, answer = some mem → mem ∈ elements params ∧ mem ∉ system.live) ∧
    (∀ mem ∈ system.live, ∃ pool, memPoolFree system.pool mem = .ok pool) ∧
    (∃ spare, system.pool.links.Chain .head (spare.map .elem) ∧
      (spare ++ system.live).Perm (elements params) ∧ (elements params).Nodup) ∧
    IsGreatest {number | ∃ base, params.align ∣ base ∧ params.mem ≤ base ∧ ∀ ndx < number,
      base + ndx * params.stride + max params.elemSize sizeofPoolNode ≤
        params.mem + params.memSize} params.count := by
  obtain ⟨named, room, spare, ok⟩ := ok_of_reachable noWrap reached
  have members : ∀ mem ∈ system.live, mem ∈ elements params := fun mem live =>
    ok.conserved.mem_iff.mp (List.mem_append_right _ live)
  obtain ⟨-, liveNodup, disjoint⟩ := List.nodup_append.mp ok.nodup
  refine ⟨?_, ?_, ?_, ?_, ⟨spare, ok.chain, ok.conserved, nodup_elements params⟩,
    PoolParams.count_greatest room⟩
  · intro mem live
    obtain ⟨aligned, inside⟩ := placed_of_mem room (members mem live)
    exact ⟨aligned, inside⟩
  · refine liveNodup.imp_of_mem fun {mem other} live otherLive differs => ?_
    exact apart_of_mem (members mem live) (members other otherLive) differs
  · have total := ok.conserved.length_eq
    rw [List.length_append, elements, List.length_map, List.length_range] at total
    rcases ok.alloc with ⟨rfl, returned⟩ | ⟨mem, rest, pool, rfl, returned, afterOk⟩
    · rw [List.length_nil, Nat.zero_add] at total
      exact ⟨_, _, returned, iff_of_true rfl total, nofun⟩
    · rw [List.length_cons] at total
      refine ⟨_, _, returned, iff_of_false nofun (by omega), ?_⟩
      rintro _ ⟨⟩
      refine ⟨ok.conserved.mem_iff.mp List.mem_cons_self, fun live => ?_⟩
      exact disjoint mem List.mem_cons_self mem live rfl
  · intro mem live
    obtain ⟨pool, returned, -⟩ := ok.free named noWrap room live
    exact ⟨pool, returned⟩

/-- Four elements of six bytes in a block of 40 bytes. -/
def smallPool : PoolParams where
  mem := 10
  memSize := 40
  elemSize := 6
  power := 3
  aligned := by decide

/-- Two elements are taken, the first one is given back and overwritten when it is
taken again. -/
def smallRun : Option PoolSystem :=
  match smallPool.init 4 fun _ => none with
  | .error _ => none
  | .ok pool =>
      Machine.execute Legal call [.alloc, .alloc, .free 16, .alloc, .write 16 none]
        { pool := pool, live := [] }

theorem elements_of_smallRun : ∃ system, (poolMachine smallPool).Reachable system ∧
    system.live = [16, 24] ∧ smallPool.count = 4 ∧
      ∃ pool answer, memPoolAlloc system.pool = .ok (pool, answer) ∧
        (answer = none ↔ system.live.length = smallPool.count) := by
  have lives : smallRun.map PoolSystem.live = some [16, 24] := by decide +kernel
  obtain ⟨system, executed, live⟩ := Option.map_eq_some_iff.mp lives
  have reached : (poolMachine smallPool).Reachable system := by
    unfold smallRun at executed
    split at executed
    · cases executed
    · next pool accepted =>
        have start : (poolMachine smallPool).Reachable { pool := pool, live := [] } :=
          .initial ⟨4, fun _ => none, accepted, rfl⟩
        have enabled : ∀ state action next, Legal state action → call state action = .ok next →
            (poolMachine smallPool).step state action next :=
          fun _ _ _ legal called => ⟨legal, called⟩
        exact start.execute enabled executed
  have noWrap : smallPool.NoWrap := by
    show 10 + 40 + smallPool.stride < addressSpace
    decide
  obtain ⟨-, -, ⟨pool, answer, returned, full, -⟩, -⟩ := elements_of_reachable noWrap reached
  exact ⟨system, reached, live, by decide, pool, answer, returned, full⟩

end PoolSystem

end Yaeos
