import Mathlib.Data.List.ReduceOption
import Yaeos.Kmm.Small

/-!
# Calls on the internal caches (`kernel/mm/kmm.c`)

A large cache allocates from and frees to the caches `slabs` and `large_bufctls`
in the middle of its own calls.  `Inner` is what such a call leaves as it was:
everything that belongs to a large cache, and the state of every other cache.
-/

namespace Yaeos

namespace Kmm

variable {kmm next final : Kmm} {view view' view'' : KmmView} {ref : KmmCacheRef}

/-- `ALLOC_PAGE_FN` gave the page away and did not get it back. -/
def InUse (kmm : Kmm) (page : Nat) : Prop := kmm.released.count page < kmm.obtained.count page

instance (kmm : Kmm) (page : Nat) : Decidable (kmm.InUse page) :=
  inferInstanceAs (Decidable (_ < _))

/-- The next answers of `ALLOC_PAGE_FN` are pages that are not in use, or `NULL`. -/
structure SupplyFresh (kmm : Kmm) : Prop where
  nodup : kmm.supply.reduceOption.Nodup
  valid : ∀ page, some page ∈ kmm.supply → ValidPage page ∧ ¬kmm.InUse page

instance (kmm : Kmm) : Decidable kmm.SupplyFresh :=
  decidable_of_iff (kmm.supply.reduceOption.Nodup ∧
      ∀ page ∈ kmm.supply.reduceOption, ValidPage page ∧ ¬kmm.InUse page)
    ⟨fun ⟨nodup, valid⟩ => ⟨nodup, fun page member =>
        valid page (List.reduceOption_mem_iff.mpr member)⟩,
      fun fresh => ⟨fresh.nodup, fun page member =>
        fresh.valid page (List.reduceOption_mem_iff.mp member)⟩⟩

/-- The pages that `ALLOC_PAGE_FN` returns before its first `NULL`. -/
def leadingPages (supply : List (Option Nat)) : Nat := (supply.takeWhile Option.isSome).length

/-- The objects that can be taken from a small cache before `ALLOC_PAGE_FN` returns `NULL`. -/
def available (kmm : Kmm) (ref : KmmCacheRef) : Nat :=
  kmm.freeObjects ref + (kmm.layout ref).slabCapacity * leadingPages kmm.supply

theorem LaidOut.inUse (laidOut : kmm.LaidOut view) {page : Nat}
    (member : page ∈ view.slabs.map kmm.page ++ view.loose) : kmm.InUse page := by
  unfold InUse
  rw [laidOut.balance.count_eq page, List.count_append]
  have positive := List.count_pos_iff.mpr member
  omega

theorem SupplyFresh.nextPageFresh (fresh : kmm.SupplyFresh) (laidOut : kmm.LaidOut view) :
    NextPageFresh kmm view := by
  intro page answer
  have member : some page ∈ kmm.supply := by
    cases supply : kmm.supply with
    | nil => simp [supply] at answer
    | cons first rest =>
        rw [supply] at answer
        simp only [List.head?_cons, Option.join_some] at answer
        rw [answer]
        exact List.mem_cons_self ..
  obtain ⟨valid, unused⟩ := fresh.valid page member
  exact ⟨valid, fun shared => unused (laidOut.inUse shared)⟩

/-- The answers after an answer are fresh again. -/
theorem SupplyFresh.step (fresh : kmm.SupplyFresh) (supply : next.supply = kmm.supply.tail)
    (obtained : next.obtained = kmm.supply.head?.join.toList ++ kmm.obtained)
    (released : next.released = kmm.released) : next.SupplyFresh := by
  have nodup := fresh.nodup
  constructor
  · rw [supply]
    cases isSupply : kmm.supply with
    | nil => exact List.nodup_nil
    | cons first rest =>
        rw [isSupply] at nodup
        cases first with
        | none =>
            rw [List.reduceOption_cons_of_none] at nodup
            exact nodup
        | some page =>
            rw [List.reduceOption_cons_of_some] at nodup
            exact (List.nodup_cons.mp nodup).2
  · intro page member
    rw [supply] at member
    obtain ⟨valid, unused⟩ := fresh.valid page (List.mem_of_mem_tail member)
    refine ⟨valid, ?_⟩
    unfold InUse
    rw [obtained, released, List.count_append]
    have other : kmm.supply.head?.join.toList.count page = 0 := by
      rw [List.count_eq_zero]
      intro same
      cases isSupply : kmm.supply with
      | nil => simp [isSupply] at same
      | cons first rest =>
          rw [isSupply] at nodup member same
          cases first with
          | none => simp at same
          | some head =>
              simp only [List.head?_cons, Option.join_some, Option.toList_some,
                List.mem_singleton] at same
              subst same
              rw [List.reduceOption_cons_of_some] at nodup
              exact (List.nodup_cons.mp nodup).1 (List.reduceOption_mem_iff.mpr member)
    unfold InUse at unused
    omega

theorem SupplyFresh.same (fresh : kmm.SupplyFresh) (supply : next.supply = kmm.supply)
    (obtained : next.obtained = kmm.obtained) (released : next.released = kmm.released) :
    next.SupplyFresh := by
  constructor
  · rw [supply]
    exact fresh.nodup
  · intro page member
    unfold InUse
    rw [obtained, released]
    exact fresh.valid page (supply ▸ member)

/-- What calls on some small caches leave as it was. -/
structure Inner (refs : List KmmCacheRef) (kmm : Kmm) (view : KmmView) (next : Kmm)
    (view' : KmmView) : Prop where
  caches : ∀ ref, CacheOk kmm view ref kmm.inuse → CacheOk next view' ref next.inuse
  layout : next.layout = kmm.layout
  cache : ∀ ref, (kmm.layout ref).large = true → next.cache ref = kmm.cache ref
  record : ∀ ref slab, (kmm.layout ref).large = true → (ref, slab) ∈ view.slabs →
    next.slab slab = kmm.slab slab
  slabs : ∃ more, (∀ entry ∈ more, entry.1 ∈ refs ∧ (kmm.layout entry.1).large = false) ∧
    view'.slabs = more ++ view.slabs
  buffers : ∀ entry ∈ view.slabs, SameBuffers kmm view.held next view'.held entry
  registered : next.allocatedCaches = kmm.allocatedCaches
  released : next.released = kmm.released

variable {refs : List KmmCacheRef}

theorem Inner.trans (first : Inner refs kmm view next view')
    (second : Inner refs next view' final view'') : Inner refs kmm view final view'' := by
  obtain ⟨some, someSmall, someSlabs⟩ := first.slabs
  obtain ⟨more, moreSmall, moreSlabs⟩ := second.slabs
  constructor
  · intro ref ok
    exact second.caches ref (first.caches ref ok)
  · rw [second.layout, first.layout]
  · intro ref large
    rw [second.cache ref (by rw [first.layout]; exact large), first.cache ref large]
  · intro ref slab large member
    rw [second.record ref slab (by rw [first.layout]; exact large)
      (by rw [someSlabs]; exact List.mem_append_right _ member), first.record ref slab large member]
  · refine ⟨more ++ some, ?_, by rw [moreSlabs, someSlabs, List.append_assoc]⟩
    intro entry member
    rcases List.mem_append.mp member with late | early
    · rw [← first.layout]
      exact moreSmall entry late
    · exact someSmall entry early
  · intro entry member
    refine (first.buffers entry member).trans (second.buffers entry ?_)
    rw [someSlabs]
    exact List.mem_append_right _ member
  · rw [second.registered, first.registered]
  · rw [second.released, first.released]

theorem Inner.refl (refs : List KmmCacheRef) (kmm : Kmm) (view : KmmView) :
    Inner refs kmm view kmm view :=
  ⟨fun _ ok => ok, rfl, fun _ _ => rfl, fun _ _ _ _ => rfl,
    ⟨[], fun _ member => (List.not_mem_nil member).elim, rfl⟩, fun _ _ => List.Perm.refl _, rfl,
    rfl⟩

theorem Inner.mono {refs' : List KmmCacheRef} (inner : Inner refs kmm view next view')
    (sub : ∀ ref ∈ refs, ref ∈ refs') : Inner refs' kmm view next view' := by
  obtain ⟨caches, layout, cache, record, ⟨more, small, slabs⟩, buffers, registered, released⟩ :=
    inner
  exact ⟨caches, layout, cache, record, ⟨more, fun entry member =>
    ⟨sub _ (small entry member).1, (small entry member).2⟩, slabs⟩, buffers, registered, released⟩

/-- Other caches get no slabs. -/
theorem Inner.mem_slabs (inner : Inner refs kmm view next view') (other : ref ∉ refs)
    {slab : Nat} : (ref, slab) ∈ view'.slabs ↔ (ref, slab) ∈ view.slabs := by
  obtain ⟨more, small, slabs⟩ := inner.slabs
  rw [slabs, List.mem_append]
  exact ⟨fun member => member.resolve_left fun new => other (small _ new).1, .inr⟩

/-- A call on a small cache leaves the large ones alone. -/
theorem Touches.inner (touches : Touches kmm next ref view')
    (small : (kmm.layout ref).large = false) (laidOut : next.LaidOut view')
    (slabs : view'.slabs = view.slabs ∨ ∃ slab, view'.slabs = (ref, slab) :: view.slabs)
    (own : CacheOk next view' ref next.inuse) (released : next.released = kmm.released)
    (buffers : ∀ entry ∈ view.slabs, SameBuffers kmm view.held next view'.held entry)
    (allowed : ref ∈ refs) : Inner refs kmm view next view' := by
  have others (other : KmmCacheRef) (slab : Nat) (different : other ≠ ref) :
      (other, slab) ∈ view'.slabs ↔ (other, slab) ∈ view.slabs := by
    rcases slabs with same | ⟨_, same⟩
    · rw [same]
    · rw [same, List.mem_cons, Prod.mk.injEq]
      exact ⟨fun member => member.resolve_left fun equal => different equal.1, .inr⟩
  have apart (other : KmmCacheRef) (large : (kmm.layout other).large = true) : other ≠ ref := by
    rintro rfl
    rw [small] at large
    exact Bool.false_ne_true large
  constructor
  · intro other ok
    by_cases self : other = ref
    · exact self ▸ own
    · exact ok.touches touches laidOut self (fun slab => others other slab self)
        fun slab same => congrArg KmmSlab.objectsInuse same
  · exact touches.layout
  · exact fun other large => touches.cache other (apart other large)
  · intro other slab large member
    apply touches.slab
    intro shared
    have equal : (other, slab) = (ref, slab) :=
      laidOut.eq_of_address ((others other slab (apart other large)).mpr member) shared rfl
    exact apart other large (congrArg Prod.fst equal)
  · rcases slabs with same | ⟨slab, same⟩
    · exact ⟨[], fun _ member => (List.not_mem_nil member).elim, same⟩
    · refine ⟨[(ref, slab)], ?_, same⟩
      intro entry member
      rw [List.mem_singleton] at member
      subst member
      exact ⟨allowed, small⟩
  · exact buffers
  · exact touches.registered
  · exact released

theorem Allocated.inner {obj : Nat} (allocated : Allocated kmm view next view' ref obj)
    (small : (kmm.layout ref).large = false) (allowed : ref ∈ refs) :
    Inner refs kmm view next view' :=
  allocated.touches.inner small allocated.laidOut allocated.slabs allocated.cache
    allocated.released allocated.buffers allowed

theorem Freed.inner (freed : Freed kmm view next view' ref)
    (small : (kmm.layout ref).large = false) (allowed : ref ∈ refs) :
    Inner refs kmm view next view' :=
  freed.touches.inner small freed.laidOut (.inl freed.slabs) freed.cache freed.released
    freed.buffers allowed

/-- The internal caches are small, with more than one object in a slab and without a
constructor. -/
structure Internal (kmm : Kmm) (view : KmmView) (ref : KmmCacheRef) : Prop where
  ok : CacheOk kmm view ref kmm.inuse
  small : (kmm.layout ref).large = false
  several : 1 < (kmm.layout ref).slabCapacity
  noCtor : (kmm.layout ref).ctor = false

theorem Internal.unstuck (internal : Internal kmm view ref) :
    (kmm.cache ref).slabCapacity = 1 → (kmm.cache ref).slabsPartial = [] := by
  intro one
  have several : 1 < (kmm.cache ref).slabCapacity := internal.several
  omega

theorem Internal.inner (internal : Internal kmm view ref) (inner : Inner refs kmm view next view') :
    Internal next view' ref := by
  refine ⟨inner.caches ref internal.ok, ?_, ?_, ?_⟩
  · rw [inner.layout]
    exact internal.small
  · rw [inner.layout]
    exact internal.several
  · rw [inner.layout]
    exact internal.noCtor

/-- An internal cache supplies an object as long as one is available. -/
theorem Internal.alloc (internal : Internal kmm view ref) (laidOut : kmm.LaidOut view)
    (fresh : kmm.SupplyFresh) (some_ : kmm.available ref ≠ 0) (calls : KmmCalls) :
    ∃ next view' obj, cacheAlloc calls kmm ref = .ok (next, some obj) ∧
      Allocated kmm view next view' ref obj ∧ next.SupplyFresh ∧
      next.available ref + 1 = kmm.available ref ∧
      next.supply = if kmm.freeObjects ref = 0 then kmm.supply.tail else kmm.supply := by
  by_cases exhausted : kmm.freeObjects ref = 0
  · obtain ⟨page, rest, isSupply⟩ : ∃ page rest, kmm.supply = some page :: rest := by
      unfold available leadingPages at some_
      rw [exhausted, Nat.zero_add] at some_
      cases isSupply : kmm.supply with
      | nil => simp [isSupply] at some_
      | cons first rest =>
          cases first with
          | none => simp [isSupply] at some_
          | some page => exact ⟨page, rest, rfl⟩
    have answer : kmm.supply.head?.join = some page := by rw [isSupply]; rfl
    obtain ⟨next, obj, allocated, spec, supply, obtained, free⟩ :=
      cacheAlloc_grown laidOut internal.ok internal.small internal.unstuck exhausted
        (fresh.nextPageFresh laidOut) answer calls
    refine ⟨next, _, obj, allocated, spec, ?_, ?_, ?_⟩
    · exact fresh.step supply (by rw [obtained, answer]; rfl) spec.released
    · unfold available leadingPages
      rw [spec.touches.layout, exhausted, supply, isSupply, List.tail_cons,
        List.takeWhile_cons_of_pos rfl, List.length_cons, Nat.mul_succ]
      omega
    · rw [supply, if_pos exhausted]
  · obtain ⟨next, obj, allocated, spec, supply, obtained, free⟩ :=
      cacheAlloc_existing laidOut internal.ok internal.small internal.unstuck exhausted calls
    refine ⟨next, _, obj, allocated, spec, fresh.same supply obtained spec.released, ?_, ?_⟩
    · unfold available
      rw [spec.touches.layout, supply]
      omega
    · rw [supply, if_neg exhausted]

/-- When nothing is available, the call returns `NULL`. -/
theorem Internal.alloc_none (internal : Internal kmm view ref) (laidOut : kmm.LaidOut view)
    (fresh : kmm.SupplyFresh) (none_ : kmm.available ref = 0) (calls : KmmCalls) :
    ∃ next, cacheAlloc calls kmm ref = .ok (next, none) ∧ next.LaidOut view ∧
      Inner [ref] kmm view next view ∧ next.SupplyFresh ∧ next.obtained = kmm.obtained ∧
      next.objectCalls = kmm.objectCalls := by
  unfold available leadingPages at none_
  have capacity := internal.ok.sound.capacity_pos
  have exhausted : kmm.freeObjects ref = 0 := by omega
  have refused : kmm.supply.head?.join = none := by
    cases isSupply : kmm.supply with
    | nil => rfl
    | cons first rest =>
        cases first with
        | none => rfl
        | some page =>
            rw [isSupply, List.takeWhile_cons_of_pos rfl, List.length_cons, Nat.mul_succ] at none_
            omega
  have obtained : (kmm.answered.setCache ref (kmm.cache ref).nextColour).obtained =
      kmm.supply.head?.join.toList ++ kmm.obtained := rfl
  refine ⟨_, cacheAlloc_refused internal.ok internal.small internal.unstuck exhausted
    (fresh.nextPageFresh laidOut) refused calls, refused_laidOut laidOut refused, ?_,
    fresh.step rfl obtained rfl, ?_, rfl⟩
  · exact refused_touches.inner internal.small (refused_laidOut laidOut refused) (.inl rfl)
      (refused_cacheOk internal.ok) rfl
      (fun entry _ => (refused_sameSlab entry).buffers (List.Perm.refl _))
      (List.mem_singleton_self ref)
  · rw [obtained, refused]
    rfl

/-- An internal cache takes an object back. -/
theorem Internal.free (internal : Internal kmm view ref) (laidOut : kmm.LaidOut view) {mem : Nat}
    {held : List KmmEntry} (objects : view.held.Perm ((ref, mem) :: held))
    (unneeded : Unneeded kmm view (ref, mem)) (calls : KmmCalls) :
    ∃ next, cacheFree calls kmm ref mem = .ok next ∧
      Freed kmm view next { view with held := held } ref := by
  have several : 1 < (kmm.cache ref).slabCapacity := internal.several
  obtain ⟨next, freed, spec, -⟩ := cacheFree_small laidOut internal.ok internal.small objects
    unneeded (fun one => by omega) calls
  exact ⟨next, freed, spec⟩

end Kmm

end Yaeos
