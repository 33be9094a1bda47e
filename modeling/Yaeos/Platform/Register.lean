import Yaeos.Platform.MemRegions
import Yaeos.Resources.Basic

/-!
# Registering memory (`arch/i686/platform_resources.c`)

`register_mem_region` takes the length of a region from its bounds, as a machine word, and
cuts off what has no addresses.  A length of an entry that does not fit into a machine word
is cut to one before.
-/

namespace Yaeos

/-- The callback that `i686_register_resources` passes on. -/
def registerMemRegion (resources : Resources) (region : MemRegion) : Outcome Resources :=
  let length := wrapSub region.stop region.start
  if length ≤ platformPageSize then .ok resources
  else resourcesRegister resources platformId memoryId .memory
    { base := region.start, len := min length (wrapSub maxAddr region.start) }

/-- `iter_without_unavail` with this callback. -/
def registerEntry (kstart kend : Nat) (resources : Resources) (mmap : MultibootMmapEntry) :
    Outcome Resources := do
  let regions ← iterWithoutUnavail kstart kend mmap
  regions.foldlM registerMemRegion resources

/-- Where there is a slot left, it is taken. -/
theorem resourcesRegister_ok {resources : Resources}
    (room : resources.nextFreeNdx < resources.storage.length) (deviceId resourceId : CString)
    (type : ResourceType) (data : ResourceData) :
    ∃ next, resourcesRegister resources deviceId resourceId type data = .ok next ∧
      next.nextFreeNdx = resources.nextFreeNdx + 1 ∧
      (next.storage[resources.nextFreeNdx]?).map Resource.data = some data := by
  have available : ¬resources.nextFreeNdx > resources.storage.length - 1 := by omega
  simp [resourcesRegister, resourcesGetNew, available, writeSlot_ok room, room]

theorem resourcesRegister_data {resources next : Resources} {deviceId resourceId : CString}
    {type : ResourceType} {data other : ResourceData}
    (room : resources.nextFreeNdx < resources.storage.length)
    (registered : resourcesRegister resources deviceId resourceId type data = .ok next)
    (again : resourcesRegister resources deviceId resourceId type other = .ok next) :
    data = other := by
  obtain ⟨next', returned, -, slot⟩ := resourcesRegister_ok room deviceId resourceId type data
  obtain ⟨next'', returned', -, slot'⟩ := resourcesRegister_ok room deviceId resourceId type other
  cases registered.symm.trans returned
  cases again.symm.trans returned'
  exact Option.some.inj (slot.symm.trans slot')

namespace MultibootMmapEntry

/-- The entry and the kernel image have no address in common. -/
def Apart (mmap : MultibootMmapEntry) (kstart kend : Nat) : Prop :=
  kend ≤ mmap.addr ∨ mmap.addr + mmap.len ≤ kstart

/-- The part of the entry that has addresses. -/
def addressable (mmap : MultibootMmapEntry) : ResourceData where
  base := mmap.addr
  len := min mmap.len (addressSpace - 1 - mmap.addr)

/-- The addressable part is registered; one that is no longer than a page may be dropped. -/
def Registers (mmap : MultibootMmapEntry) (kstart kend : Nat) (resources : Resources) : Prop :=
  ∃ next, registerEntry kstart kend resources mmap = .ok next ∧
    (resourcesRegister resources platformId memoryId .memory mmap.addressable = .ok next ∨
      mmap.addressable.len ≤ platformPageSize ∧ next = resources)

variable {mmap : MultibootMmapEntry} {kstart kend : Nat} {resources : Resources}

section Entry

variable (available : mmap.type ≠ multibootMemoryBadram ∧ mmap.type ≠ multibootMemoryReserved)
  (below : mmap.addr < addressSpace) (image : kstart < addressSpace)
  (apart : mmap.Apart kstart kend)
include available below image apart

/-- An entry apart from the kernel image is passed on whole. -/
theorem iterWithoutUnavail_apart :
    iterWithoutUnavail kstart kend mmap = .ok [⟨mmap.addr, mmap.memend, mmap.type⟩] := by
  have notUnavailable : ¬(mmap.type = multibootMemoryBadram ∨
      mmap.type = multibootMemoryReserved) := by tauto
  have notBeyond : ¬mmap.addr > maxAddr := by
    unfold maxAddr
    omega
  have start : mmap.memstart = mmap.addr := wrap_of_lt below
  rw [iterWithoutUnavail, if_neg notUnavailable, if_neg notBeyond]
  dsimp only
  rw [start]
  by_cases before : kend ≤ mmap.addr
  · exact if_pos before
  · have behind := apart.resolve_left before
    have word : wrap mmap.len = mmap.len := wrap_of_lt (by omega)
    have stop : mmap.memend = mmap.addr + mmap.len := by
      rw [memend, start, word, wrap_of_lt (by omega)]
    rw [if_neg before, if_pos (by omega)]

/-- The bounds determine the length up to a multiple of the address space. -/
theorem registerEntry_apart : registerEntry kstart kend resources mmap =
    if wrap mmap.len ≤ platformPageSize then .ok resources
    else resourcesRegister resources platformId memoryId .memory
      { base := mmap.addr, len := min (wrap mmap.len) (addressSpace - 1 - mmap.addr) } := by
  have length : wrapSub mmap.memend mmap.addr = wrap mmap.len := by
    unfold memend memstart wrapSub wrap addressSpace at *
    omega
  have rest : wrapSub maxAddr mmap.addr = addressSpace - 1 - mmap.addr := by
    unfold wrapSub wrap maxAddr addressSpace at *
    omega
  rw [registerEntry, iterWithoutUnavail_apart available below image apart, Outcome.ok_bind,
    List.foldlM_cons]
  simp only [List.foldlM_nil, bind_pure, registerMemRegion, length, rest]

/-- The addressable part of an entry is registered if and only if its length is a machine
word, or is one that is long enough when it is cut to a word. -/
theorem registers_iff (room : resources.nextFreeNdx < resources.storage.length) :
    mmap.Registers kstart kend resources ↔ mmap.len < addressSpace ∨
      addressSpace - 1 - mmap.addr ≤ max (wrap mmap.len) platformPageSize := by
  have word : mmap.len < addressSpace → wrap mmap.len = mmap.len := wrap_of_lt
  have unlike : ∀ next data,
      resourcesRegister resources platformId memoryId .memory data = .ok next →
        next ≠ resources := by
    rintro next data registered rfl
    obtain ⟨other, again, taken, -⟩ := resourcesRegister_ok room platformId memoryId .memory data
    cases registered.symm.trans again
    omega
  rw [Registers, registerEntry_apart available below image apart]
  by_cases short : wrap mmap.len ≤ platformPageSize
  · rw [if_pos short]
    constructor
    · rintro ⟨next, ⟨⟩, registered | ⟨dropped, -⟩⟩
      · exact absurd rfl (unlike _ _ registered)
      · unfold addressable platformPageSize addressSpace at *
        dsimp only at dropped
        omega
    · intro condition
      refine ⟨resources, rfl, .inr ⟨?_, rfl⟩⟩
      unfold addressable
      dsimp only
      omega
  · rw [if_neg short]
    constructor
    · rintro ⟨next, returned, registered | ⟨-, rfl⟩⟩
      · have same := resourcesRegister_data room returned registered
        injection same with _ sameLen
        unfold addressSpace at *
        omega
      · exact absurd rfl (unlike _ _ returned)
    · intro condition
      have same : min (wrap mmap.len) (addressSpace - 1 - mmap.addr) =
          min mmap.len (addressSpace - 1 - mmap.addr) := by omega
      obtain ⟨next, returned, -⟩ :=
        resourcesRegister_ok room platformId memoryId .memory mmap.addressable
      exact ⟨next, by rw [same]; exact returned, .inl returned⟩

end Entry

theorem boot_room : (resourcesInit resourcesBoot).nextFreeNdx <
    (resourcesInit resourcesBoot).storage.length := by
  have slots : (resourcesInit resourcesBoot).storage.length = maxResources := List.length_replicate
  rw [slots]
  decide

/-- Memory that goes on behind the last address, above the kernel image. -/
theorem overEnd_registers_iff :
    (MultibootMmapEntry.mk 0xC0000000 0x60000000 1).Registers 0x100000 0x180000
        (resourcesInit resourcesBoot) ↔
      0x60000000 < addressSpace ∨
        addressSpace - 1 - 0xC0000000 ≤ max (wrap 0x60000000) platformPageSize :=
  registers_iff (by decide) (by decide) (by decide) (.inl (by decide)) boot_room

/-- Four gigabytes of memory, whose length is cut to zero. -/
theorem fourGiB_not_registered :
    ¬(MultibootMmapEntry.mk 0x1000000 0x100000000 1).Registers 0x100000 0x180000
      (resourcesInit resourcesBoot) := by
  have dropped : registerEntry 0x100000 0x180000 (resourcesInit resourcesBoot)
      ⟨0x1000000, 0x100000000, 1⟩ = .ok (resourcesInit resourcesBoot) := by
    rw [registerEntry_apart (by decide) (by decide) (by decide) (.inl (by decide))]
    exact if_pos (by decide)
  rintro ⟨next, returned, registered | ⟨small, -⟩⟩
  · cases dropped.symm.trans returned
    obtain ⟨other, again, taken, -⟩ :=
      resourcesRegister_ok boot_room platformId memoryId .memory
        (MultibootMmapEntry.mk 0x1000000 0x100000000 1).addressable
    cases registered.symm.trans again
    omega
  · exact absurd small (by decide)

end MultibootMmapEntry

end Yaeos
