import Yaeos.Cstd.String
import Yaeos.Machine.Slots
import Yaeos.Slist.Links

/-!
# Resources (`kernel/resources.c`)

A resource is known by its index in `RESOURCES_STORAGE`.  The links of the two
heads and of the `list` fields are kept apart from the records.  The members of
the unions share their memory, so an owner is a machine word, and the two kinds
of data have the same layout.
-/

namespace Yaeos

inductive ResourceType where
  | memory
  | devBuffer
  deriving DecidableEq, Repr

/-- `union resource_data`. -/
structure ResourceData where
  base : Nat
  len : Nat
  deriving DecidableEq, Repr

/-- `RES_OWNER_NONE`. -/
def resOwnerNone : Nat := 0

/-- `RES_OWNER_KERNEL`. -/
def resOwnerKernel : Nat := 1

/-- `struct resource` without its link. -/
structure Resource where
  deviceId : Option CString
  resourceId : Option CString
  /-- `union resource_owner`: the state or the address of a module. -/
  owner : Nat
  type : ResourceType
  data : ResourceData
  deriving DecidableEq, Repr

/-- `MAX_RESOURCES`. -/
def maxResources : Nat := 256

inductive ResourceRef where
  | claimedHead
  | freeHead
  /-- The `list` field of a resource. -/
  | resource (ndx : Nat)
  deriving DecidableEq, Repr

/-- `RESOURCES_STORAGE`, `RESOURCES_NEXT_FREE_NDX` and `RESOURCES`. -/
structure Resources where
  storage : List Resource
  nextFreeNdx : Nat
  links : SlistLinks ResourceRef

/-- The static data at boot. -/
def resourcesBoot : Resources where
  storage := List.replicate maxResources
    { deviceId := none, resourceId := none, owner := 0, type := .memory,
      data := { base := 0, len := 0 } }
  nextFreeNdx := 0
  links := fun _ => none

def resourcesInit (resources : Resources) : Resources :=
  { resources with links := (resources.links.init .claimedHead).init .freeHead }

/-- The index of a new resource. -/
def resourcesGetNew (resources : Resources) : Outcome (Resources × Nat) := do
  let maxNdx := resources.storage.length - 1
  if resources.nextFreeNdx > maxNdx then .error .kassert
  else
    let new := resources.nextFreeNdx
    .ok ({ resources with nextFreeNdx := resources.nextFreeNdx + 1 }, new)

namespace Resources

/-- `resource_of`. -/
def resourceOf (resources : Resources) : ResourceRef → Outcome Resource
  | .resource ndx => readSlot resources.storage ndx
  | _ => .error .outOfBounds

/-- Both claims, which differ in the resources they look for. -/
def claimBy (resources : Resources) (rounds : Nat) (matched : Resource → Outcome Bool)
    (owner : Nat) : Outcome (Resources × Option Nat) := do
  let test (next : ResourceRef) : Outcome Bool := do matched (← resources.resourceOf next)
  match ← resources.links.findPrev test rounds .freeHead with
  | none => .ok (resources, none)
  | some cursor =>
      match resources.links cursor with
      | some (.resource ndx) => do
          let links ← resources.links.removeNext cursor
          let links := links.insert .claimedHead (.resource ndx)
          let r ← readSlot resources.storage ndx
          kassert (r.owner = resOwnerNone)
          let storage ← writeSlot resources.storage ndx { r with owner := owner }
          .ok ({ resources with storage := storage, links := links }, some ndx)
      | _ => .error .outOfBounds

end Resources

/-- The test of `claim_by_id`. -/
def matchIds (deviceId resourceId : CString) (r : Resource) : Outcome Bool := do
  let matchDev := kstrcmp deviceId (← deref r.deviceId) = 0
  let matchRes := kstrcmp resourceId (← deref r.resourceId) = 0
  .ok (decide matchDev && decide matchRes)

/-- The test of `claim_by_type`. -/
def matchType (type : ResourceType) (r : Resource) : Outcome Bool := .ok (decide (r.type = type))

def claimById (resources : Resources) (rounds : Nat) (deviceId resourceId : CString)
    (owner : Nat) : Outcome (Resources × Option Nat) :=
  resources.claimBy rounds (matchIds deviceId resourceId) owner

def claimByType (resources : Resources) (rounds : Nat) (type : ResourceType) (owner : Nat) :
    Outcome (Resources × Option Nat) :=
  resources.claimBy rounds (matchType type) owner

def resourcesClaimById (resources : Resources) (rounds : Nat) (deviceId resourceId : CString)
    (owner : Nat) : Outcome (Resources × Option Nat) :=
  claimById resources rounds deviceId resourceId owner

def resourcesClaimByType (resources : Resources) (rounds : Nat) (type : ResourceType)
    (owner : Nat) : Outcome (Resources × Option Nat) :=
  claimByType resources rounds type owner

def resourcesKclaimById (resources : Resources) (rounds : Nat) (deviceId resourceId : CString) :
    Outcome (Resources × Option Nat) :=
  claimById resources rounds deviceId resourceId resOwnerKernel

def resourcesKclaimByType (resources : Resources) (rounds : Nat) (type : ResourceType) :
    Outcome (Resources × Option Nat) :=
  claimByType resources rounds type resOwnerKernel

def resourcesRegister (resources : Resources) (deviceId resourceId : CString)
    (type : ResourceType) (data : ResourceData) : Outcome Resources := do
  let (resources, new) ← resourcesGetNew resources
  let links := resources.links.init (.resource new)
  let storage ← writeSlot resources.storage new
    { deviceId := some deviceId, resourceId := some resourceId, owner := resOwnerNone,
      type := type, data := data }
  .ok { resources with storage := storage, links := links.insert .freeHead (.resource new) }

/-- The loop of `register_mem_zones` for any pair of names: claim until nothing is
left and hand the data of each resource on; at most `claims` claims. -/
def claimEvery (rounds : Nat) (deviceId resourceId : CString) :
    (claims : Nat) → Resources → Outcome (Resources × List ResourceData)
  | 0, _ => .error .unfinished
  | claims + 1, resources => do
      match ← resourcesKclaimById resources rounds deviceId resourceId with
      | (resources, none) => .ok (resources, [])
      | (resources, some ndx) => do
          let r ← readSlot resources.storage ndx
          let (resources, zones) ← claimEvery rounds deviceId resourceId claims resources
          .ok (resources, r.data :: zones)

/-- `"platform"`. -/
def platformId : CString where
  bytes := [112, 108, 97, 116, 102, 111, 114, 109]
  nonzero := by decide

/-- `"memory"`. -/
def memoryId : CString where
  bytes := [109, 101, 109, 111, 114, 121]
  nonzero := by decide

/-- The arguments of the calls of `register_zone_for_mem`, in order. -/
def registerMemZones (rounds claims : Nat) (resources : Resources) :
    Outcome (Resources × List ResourceData) :=
  claimEvery rounds platformId memoryId claims resources

end Yaeos
