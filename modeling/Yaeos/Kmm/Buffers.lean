import Yaeos.Kmm.Pages

/-!
# The buffers of a slab (`kernel/mm/kmm.c`)

A buffer of a slab is free or handed out.  The calls on a cache move buffers
between the two, and no slab gets or loses one until it is taken apart.
-/

namespace Yaeos

namespace Kmm

variable {kmm next final : Kmm} {view : KmmView} {held held' held'' : List KmmEntry}
  {entry : KmmEntry} {mem : Nat}

/-- The buffers of a slab, free or handed out. -/
def bufferMems (kmm : Kmm) (held : List KmmEntry) (entry : KmmEntry) : List Nat :=
  kmm.freeMems entry ++ (onPage held (kmm.page entry)).map Prod.snd

/-- A slab has the same buffers in two states. -/
def SameBuffers (kmm : Kmm) (held : List KmmEntry) (next : Kmm) (held' : List KmmEntry)
    (entry : KmmEntry) : Prop :=
  (next.bufferMems held' entry).Perm (kmm.bufferMems held entry)

theorem SameBuffers.trans (first : SameBuffers kmm held next held' entry)
    (second : SameBuffers next held' final held'' entry) :
    SameBuffers kmm held final held'' entry := List.Perm.trans second first

/-- The record of a slab is the same, and the objects on its page. -/
theorem SameBuffers.of_record (layout : next.layout entry.1 = kmm.layout entry.1)
    (free : (next.slab entry.2).freeBuffers = (kmm.slab entry.2).freeBuffers)
    (page : next.page entry = kmm.page entry)
    (objects : (onPage held' (kmm.page entry)).Perm (onPage held (kmm.page entry))) :
    SameBuffers kmm held next held' entry := by
  have mems : next.freeMems entry = kmm.freeMems entry := by
    unfold freeMems
    rw [layout, free]
  unfold SameBuffers bufferMems
  rw [page, mems]
  exact (objects.map _).append_left _

theorem SameSlab.buffers (same : SameSlab kmm next entry)
    (objects : (onPage held' (kmm.page entry)).Perm (onPage held (kmm.page entry))) :
    SameBuffers kmm held next held' entry :=
  .of_record same.layout same.free same.page objects

theorem LaidOut.mem_bufferMems (ok : kmm.LaidOut view) (member : entry ∈ view.slabs) :
    mem ∈ kmm.bufferMems view.held entry ↔
      mem ∈ kmm.freeMems entry ∨ (entry.1, mem) ∈ onPage view.held (kmm.page entry) := by
  unfold bufferMems
  rw [List.mem_append]
  refine or_congr_right ⟨fun isHeld => ?_, fun lies => List.mem_map.mpr ⟨_, lies, rfl⟩⟩
  obtain ⟨object, lies, rfl⟩ := List.mem_map.mp isHeld
  rw [← ok.fst_of_onPage member lies]
  exact lies

/-- A buffer lies on the page of its slab. -/
theorem LaidOut.pageOf_bufferMem (ok : kmm.LaidOut view) (member : entry ∈ view.slabs)
    (isBuffer : mem ∈ kmm.bufferMems view.held entry) : pageOf mem = kmm.page entry := by
  have slab := ok.slab entry member
  exact (slab.placed ((ok.mem_bufferMems member).mp isBuffer)).pageOf slab.sound slab.valid.aligned

/-- Two slabs do not share a buffer. -/
theorem LaidOut.eq_of_bufferMem (ok : kmm.LaidOut view) {other : KmmEntry}
    (member : entry ∈ view.slabs) (otherMember : other ∈ view.slabs)
    (isBuffer : mem ∈ kmm.bufferMems view.held entry)
    (isOther : mem ∈ kmm.bufferMems view.held other) : entry = other :=
  ok.eq_of_page member otherMember
    ((ok.pageOf_bufferMem member isBuffer).symm.trans (ok.pageOf_bufferMem otherMember isOther))

theorem LaidOut.bufferMems_nodup (ok : kmm.LaidOut view) (member : entry ∈ view.slabs) :
    (kmm.bufferMems view.held entry).Nodup := by
  have isMap : ((kmm.freeMems entry).map (Prod.mk entry.1) ++
      onPage view.held (kmm.page entry)).map Prod.snd = kmm.bufferMems view.held entry := by
    rw [List.map_append, List.map_map]
    exact congrArg (· ++ _) (List.map_id _)
  rw [← isMap]
  refine (ok.slab entry member).nodup.map_on fun first isFirst second isSecond same => ?_
  have own (object : KmmEntry) (isObject : object ∈ (kmm.freeMems entry).map (Prod.mk entry.1) ++
      onPage view.held (kmm.page entry)) : object.1 = entry.1 := by
    rcases List.mem_append.mp isObject with isFree | lies
    · obtain ⟨_, -, rfl⟩ := List.mem_map.mp isFree
      rfl
    · exact ok.fst_of_onPage member lies
  exact Prod.ext ((own first isFirst).trans (own second isSecond).symm) same

/-- Every slab keeps its buffers when the first free buffer of one is handed out. -/
theorem LaidOut.take_buffers (ok : kmm.LaidOut view) (member : entry ∈ view.slabs) {ctl : Bufctl}
    {rest : List Bufctl} (free : (kmm.slab entry.2).freeBuffers = ctl :: rest)
    (isMem : mem = bufctlMem ctl (kmm.layout entry.1)) (changes : ChangesSlab kmm next entry.2)
    (nextFree : (next.slab entry.2).freeBuffers = rest) {other : KmmEntry}
    (isSlab : other ∈ view.slabs) :
    SameBuffers kmm view.held next ((entry.1, mem) :: view.held) other := by
  have slab := ok.slab entry member
  have mems : kmm.freeMems entry = mem :: next.freeMems entry := by
    unfold freeMems
    rw [free, nextFree, changes.layout, isMem, List.map_cons]
  have lies : pageOf mem = kmm.page entry :=
    (slab.placed (.inl (mems ▸ List.mem_cons_self ..))).pageOf slab.sound slab.valid.aligned
  by_cases self : other = entry
  · subst self
    have page : next.page other = kmm.page other := changes.page
    unfold SameBuffers bufferMems
    rw [page, onPage_cons_of_eq lies, mems, List.map_cons]
    exact List.perm_middle
  · refine (changes.same fun address => self (ok.eq_of_address isSlab member address)).buffers ?_
    rw [onPage_cons_of_ne]
    rw [lies]
    exact fun same => self (ok.eq_of_page isSlab member same.symm)

/-- Every slab keeps its buffers when one takes an object back. -/
theorem LaidOut.give_buffers (ok : kmm.LaidOut view) (member : entry ∈ view.slabs) (ctl : Bufctl)
    (isMem : mem = bufctlMem ctl (kmm.layout entry.1))
    (objects : view.held.Perm ((entry.1, mem) :: held)) (lies : pageOf mem = kmm.page entry)
    (changes : ChangesSlab kmm next entry.2)
    (nextFree : (next.slab entry.2).freeBuffers = ctl :: (kmm.slab entry.2).freeBuffers)
    {other : KmmEntry} (isSlab : other ∈ view.slabs) :
    SameBuffers kmm view.held next held other := by
  have filtered (page : Nat) : (onPage view.held page).Perm
      (onPage ((entry.1, mem) :: held) page) := objects.filter _
  by_cases self : other = entry
  · subst self
    have page : next.page other = kmm.page other := changes.page
    have mems : next.freeMems other = mem :: kmm.freeMems other := by
      unfold freeMems
      rw [nextFree, changes.layout, isMem, List.map_cons]
    have here := filtered (kmm.page other)
    rw [onPage_cons_of_eq lies] at here
    unfold SameBuffers bufferMems
    rw [page, mems]
    exact List.perm_middle.symm.trans ((here.symm.map Prod.snd).append_left _)
  · refine (changes.same fun address => self (ok.eq_of_address isSlab member address)).buffers ?_
    have there := filtered (kmm.page other)
    rw [onPage_cons_of_ne] at there
    · exact there.symm
    · rw [lies]
      exact fun same => self (ok.eq_of_page isSlab member same.symm)

/-- The slabs after a call on a cache and the constructor calls in it: none, or those for
the buffers of a new slab of the cache. -/
def Grows (kmm : Kmm) (view : KmmView) (next : Kmm) (view' : KmmView) (ref : KmmCacheRef) : Prop :=
  (view'.slabs = view.slabs ∧ next.objectCalls = kmm.objectCalls) ∨
    ∃ slab mems, view'.slabs = (ref, slab) :: view.slabs ∧
      next.objectCalls = KmmCacheLayout.constructed ref (kmm.layout ref) mems ++ kmm.objectCalls ∧
      (next.bufferMems view'.held (ref, slab)).Perm mems

theorem Grows.slabs {view' : KmmView} {ref : KmmCacheRef} (grows : Grows kmm view next view' ref) :
    view'.slabs = view.slabs ∨ ∃ slab, view'.slabs = (ref, slab) :: view.slabs :=
  grows.imp And.left fun ⟨slab, _, slabs, _⟩ => ⟨slab, slabs⟩

theorem Grows.mem_slabs {view' : KmmView} {ref : KmmCacheRef}
    (grows : Grows kmm view next view' ref) (member : entry ∈ view.slabs) :
    entry ∈ view'.slabs := by
  rcases grows.slabs with same | ⟨_, same⟩
  · exact same ▸ member
  · exact same ▸ List.mem_cons_of_mem _ member

/-- A cache without a constructor calls none. -/
theorem Grows.quiet {view' : KmmView} {ref : KmmCacheRef} (grows : Grows kmm view next view' ref)
    (noCtor : (kmm.layout ref).ctor = false) : next.objectCalls = kmm.objectCalls := by
  rcases grows with ⟨-, same⟩ | ⟨_, mems, -, called, -⟩
  · exact same
  · have none_ (mem : Nat) : constructorCalls ref (kmm.layout ref) mem = [] := by
      rw [constructorCalls, noCtor, if_neg Bool.false_ne_true]
    rw [called, KmmCacheLayout.constructed, List.flatMap_congr fun mem _ => none_ mem]
    simp

/-- The state goes on without new slabs and calls. -/
theorem Grows.trans {view' view'' : KmmView} {ref : KmmCacheRef}
    (grows : Grows kmm view next view' ref) (slabs : view''.slabs = view'.slabs)
    (buffers : ∀ entry ∈ view'.slabs, SameBuffers next view'.held final view''.held entry)
    (objectCalls : final.objectCalls = next.objectCalls) : Grows kmm view final view'' ref := by
  rcases grows with ⟨same, quiet⟩ | ⟨slab, mems, isNew, called, all⟩
  · exact .inl ⟨slabs.trans same, objectCalls.trans quiet⟩
  · refine .inr ⟨slab, mems, slabs.trans isNew, objectCalls.trans called, ?_⟩
    exact List.Perm.trans (buffers _ (isNew ▸ List.mem_cons_self ..)) all

end Kmm

end Yaeos
