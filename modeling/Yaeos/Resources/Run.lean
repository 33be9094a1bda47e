import Yaeos.Machine.Run
import Yaeos.Resources.Basic
import Mathlib.Data.List.Perm.Basic
import Mathlib.Data.List.Range

/-!
# Runs over the resources

`Resources.Ok` says that the two lists hold every registered resource exactly
once.  A claim takes the first free resource that matches and puts it in front of
the claimed ones, so that the claimed list is the log of the claims.
-/

namespace Yaeos

/-- What a claim looks for. -/
inductive ResourceRequest where
  | byId (deviceId resourceId : CString)
  | byType (type : ResourceType)
  deriving DecidableEq, Repr

namespace ResourceRequest

/-- The test of the claim. -/
def test : ResourceRequest → Resource → Outcome Bool
  | .byId deviceId resourceId => matchIds deviceId resourceId
  | .byType type => matchType type

def Matches : ResourceRequest → Resource → Prop
  | .byId deviceId resourceId, r => r.deviceId = some deviceId ∧ r.resourceId = some resourceId
  | .byType type, r => r.type = type

instance (request : ResourceRequest) (r : Resource) : Decidable (request.Matches r) :=
  match request with
  | .byId _ _ => inferInstanceAs (Decidable (_ ∧ _))
  | .byType _ => inferInstanceAs (Decidable (_ = _))

/-- On a registered resource the test tells whether it matches. -/
theorem test_eq (request : ResourceRequest) {r : Resource} (device : r.deviceId.isSome)
    (resource : r.resourceId.isSome) : request.test r = .ok (decide (request.Matches r)) := by
  obtain ⟨device, hasDevice⟩ := Option.isSome_iff_exists.mp device
  obtain ⟨resource, hasResource⟩ := Option.isSome_iff_exists.mp resource
  cases request with
  | byType type => rfl
  | byId deviceId resourceId =>
      simp only [test, matchIds, hasDevice, hasResource, deref_some, Outcome.ok_bind,
        kstrcmp_eq_zero, Matches, Option.some.injEq, Bool.decide_and, @eq_comm _ deviceId,
        @eq_comm _ resourceId]

theorem matches_owner (request : ResourceRequest) (r : Resource) (owner : Nat) :
    request.Matches { r with owner := owner } ↔ request.Matches r := by
  cases request <;> rfl

end ResourceRequest

namespace Resources

variable {resources next : Resources} {free claimed : List Nat} {rounds : Nat}

/-- Whether the resource with an index matches a request. -/
def matchesAt (resources : Resources) (request : ResourceRequest) (ndx : Nat) : Bool :=
  (resources.storage[ndx]?).any fun r => request.Matches r

/-- Whether a node passes the test of a request. -/
def nodeMatches (resources : Resources) (request : ResourceRequest) : ResourceRef → Bool
  | .resource ndx => resources.matchesAt request ndx
  | _ => false

/-- Both lists in order, with every registered resource on one of them. -/
structure Ok (resources : Resources) (free claimed : List Nat) : Prop where
  size : resources.storage.length = maxResources
  bound : resources.nextFreeNdx ≤ maxResources
  freeChain : resources.links.Chain .freeHead (free.map .resource)
  claimedChain : resources.links.Chain .claimedHead (claimed.map .resource)
  listed : (free ++ claimed).Perm (List.range resources.nextFreeNdx)
  registered : ∀ ndx < resources.nextFreeNdx, ∃ r, resources.storage[ndx]? = some r ∧
    r.deviceId.isSome ∧ r.resourceId.isSome
  unowned : ∀ ndx ∈ free, ∀ r, resources.storage[ndx]? = some r → r.owner = resOwnerNone

theorem init_ok : (resourcesInit resourcesBoot).Ok [] [] where
  size := List.length_replicate
  bound := Nat.zero_le _
  freeChain := rfl
  claimedChain := rfl
  listed := List.Perm.refl _
  registered := nofun
  unowned := nofun

theorem Ok.nodup (ok : resources.Ok free claimed) : (free ++ claimed).Nodup :=
  ok.listed.nodup_iff.mpr List.nodup_range

theorem Ok.lt_of_mem (ok : resources.Ok free claimed) {ndx : Nat} (member : ndx ∈ free ++ claimed) :
    ndx < resources.nextFreeNdx := List.mem_range.mp (ok.listed.mem_iff.mp member)

theorem Ok.length_free (ok : resources.Ok free claimed) : free.length ≤ maxResources := by
  have total := ok.listed.length_eq
  rw [List.length_append, List.length_range] at total
  have bound := ok.bound
  omega

/-- A claim without a free resource that matches. -/
def NothingFree (resources : Resources) (request : ResourceRequest) (free : List Nat) : Prop :=
  ∀ ndx ∈ free, resources.matchesAt request ndx = false

/-- A claim takes the first free resource that matches; nothing else changes. -/
structure Claims (resources : Resources) (request : ResourceRequest) (owner : Nat)
    (free claimed : List Nat) (next : Resources) (ndx : Nat) : Prop where
  matched : resources.matchesAt request ndx = true
  wasFree : ∃ before after, free = before ++ ndx :: after ∧
    resources.NothingFree request before ∧ next.Ok (before ++ after) (ndx :: claimed)
  storage : ∃ r, resources.storage[ndx]? = some r ∧
    next.storage = resources.storage.set ndx { r with owner := owner }
  nextFreeNdx : next.nextFreeNdx = resources.nextFreeNdx

theorem Ok.claim (ok : resources.Ok free claimed) (request : ResourceRequest) (owner : Nat)
    (enough : maxResources < rounds) :
    (resources.claimBy rounds request.test owner = .ok (resources, none) ∧
      resources.NothingFree request free) ∨
    ∃ next ndx, resources.claimBy rounds request.test owner = .ok (next, some ndx) ∧
      resources.Claims request owner free claimed next ndx := by
  have tested : ∀ member ∈ free.map ResourceRef.resource,
      (do request.test (← resources.resourceOf member)) = Except.ok (resources.nodeMatches request member) := by
    intro member listed
    obtain ⟨ndx, inFree, rfl⟩ := List.mem_map.mp listed
    obtain ⟨r, read, device, resource⟩ :=
      ok.registered ndx (ok.lt_of_mem (List.mem_append_left _ inFree))
    simp only [resourceOf, readSlot_eq_ok.mpr read, Outcome.ok_bind,
      request.test_eq device resource]
    simp [nodeMatches, matchesAt, read]
  have long : (free.map ResourceRef.resource).length < rounds := by
    rw [List.length_map]
    exact Nat.lt_of_le_of_lt ok.length_free enough
  rcases ok.freeChain.findPrev tested long with
    ⟨searched, failed⟩ | ⟨before, found, after, split, failed, passed, searched⟩
  · refine Or.inl ⟨?_, fun ndx inFree => failed _ (List.mem_map_of_mem inFree)⟩
    exact (congrArg (· >>= _) searched).trans rfl
  · obtain ⟨before, rest, rfl, rfl, tail⟩ := List.map_eq_append_iff.mp split
    obtain ⟨ndx, after, rfl, rfl, rfl⟩ := List.map_eq_cons_iff.mp tail
    have nodup : (before ++ ndx :: after).Nodup := (List.nodup_append.mp ok.nodup).1
    have inFree : ndx ∈ before ++ ndx :: after :=
      List.mem_append_right _ List.mem_cons_self
    obtain ⟨r, read, device, resource⟩ :=
      ok.registered ndx (ok.lt_of_mem (List.mem_append_left _ inFree))
    obtain ⟨inside, -⟩ := List.getElem?_eq_some_iff.mp read
    have chain := ok.freeChain
    rw [List.map_append, List.map_cons] at chain
    obtain ⟨links, removed, rest, others⟩ := chain.removeAt
    have points := chain.next_of_last
    have among : (before.map ResourceRef.resource).getLastD .freeHead ∈
        .freeHead :: before.map .resource := List.getLastD_mem_cons ..
    generalize (before.map ResourceRef.resource).getLastD .freeHead = cursor at *
    refine Or.inr ⟨{ resources with
      storage := resources.storage.set ndx { r with owner := owner },
      links := links.insert .claimedHead (.resource ndx) }, ndx, ?_, ?_⟩
    · refine (congrArg (· >>= _) searched).trans ?_
      simp [points, removed, readSlot_eq_ok.mpr read, writeSlot_ok inside,
        ok.unowned ndx inFree r read]
    · refine ⟨passed, ⟨before, after, rfl, fun earlier member =>
        failed _ (List.mem_map_of_mem member), ?_⟩, ⟨r, read, rfl⟩, rfl⟩
      have moved : (before ++ after ++ ndx :: claimed).Perm (before ++ ndx :: after ++ claimed) := by
        rw [List.append_assoc, List.append_assoc, List.cons_append]
        exact List.Perm.append_left _ List.perm_middle
      have apart : (before ++ after ++ ndx :: claimed).Nodup := moved.nodup_iff.mpr ok.nodup
      obtain ⟨freeNodup, claimedNodup, disjoint⟩ := List.nodup_append.mp apart
      obtain ⟨notClaimed, claimedNodup⟩ := List.nodup_cons.mp claimedNodup
      -- the cursor is on the free list, so the claimed list is as it was
      have claimedChain : links.Chain .claimedHead (claimed.map .resource) := by
        refine ok.claimedChain.congr fun member inClaimed => others member ?_
        rintro rfl
        rcases List.mem_cons.mp inClaimed with rfl | inClaimed
        · simp at among
        · obtain ⟨other, listed, rfl⟩ := List.mem_map.mp inClaimed
          have inBefore : other ∈ before := by simpa using among
          exact disjoint other (List.mem_append_left _ inBefore) other
            (List.mem_cons_of_mem _ listed) rfl
      exact {
        size := by simpa using ok.size
        bound := ok.bound
        freeChain := by
          rw [List.map_append]
          refine rest.congr fun member inRest => SlistLinks.insert_of_ne ?_ ?_
          · rintro rfl
            simp at inRest
          · rintro rfl
            have inRest : ndx ∈ before ++ after := by simpa using inRest
            exact disjoint ndx inRest ndx List.mem_cons_self rfl
        claimedChain := claimedChain.insert (by simpa using notClaimed)
        listed := moved.trans ok.listed
        registered := by
          intro other below
          obtain ⟨old, readOld, hasDevice, hasResource⟩ := ok.registered other below
          by_cases same : ndx = other
          · subst same
            exact ⟨_, List.getElem?_set_self inside, device, resource⟩
          · exact ⟨old, by rwa [List.getElem?_set_ne same], hasDevice, hasResource⟩
        unowned := by
          intro other member old readOld
          have differs : ndx ≠ other := by
            rintro rfl
            exact disjoint ndx member ndx List.mem_cons_self rfl
          rw [List.getElem?_set_ne differs] at readOld
          refine ok.unowned other ?_ old readOld
          simpa [differs.symm] using member }

/-- A resource is registered while there is a slot for it, and is free then. -/
theorem Ok.register (ok : resources.Ok free claimed) (room : resources.nextFreeNdx < maxResources)
    (deviceId resourceId : CString) (type : ResourceType) (data : ResourceData) :
    ∃ next, resourcesRegister resources deviceId resourceId type data = .ok next ∧
      next.Ok (resources.nextFreeNdx :: free) claimed := by
  have inside : resources.nextFreeNdx < resources.storage.length := by rwa [ok.size]
  have available : ¬resources.nextFreeNdx > resources.storage.length - 1 := by omega
  have fresh : resources.nextFreeNdx ∉ free ++ claimed :=
    fun member => Nat.lt_irrefl _ (ok.lt_of_mem member)
  obtain ⟨notFree, notClaimed⟩ := not_or.mp (fun either => fresh (List.mem_append.mpr either))
  have keeps : ∀ (head : ResourceRef) (list : List Nat), (∀ ndx, head ≠ .resource ndx) →
      resources.nextFreeNdx ∉ list → resources.links.Chain head (list.map .resource) →
      (resources.links.init (.resource resources.nextFreeNdx)).Chain head (list.map .resource) := by
    intro head list notResource absent chain
    refine chain.congr fun member inChain => SlistLinks.init_of_ne ?_
    rintro rfl
    rcases List.mem_cons.mp inChain with same | inList
    · exact notResource _ same.symm
    · exact absent (by simpa using inList)
  have freeChain := keeps .freeHead free nofun notFree ok.freeChain
  have claimedChain := keeps .claimedHead claimed nofun notClaimed ok.claimedChain
  refine ⟨{
    storage := resources.storage.set resources.nextFreeNdx
      { deviceId := some deviceId, resourceId := some resourceId, owner := resOwnerNone,
        type := type, data := data }
    nextFreeNdx := resources.nextFreeNdx + 1
    links := (resources.links.init (.resource resources.nextFreeNdx)).insert .freeHead
      (.resource resources.nextFreeNdx) }, ?_, ?_⟩
  · simp [resourcesRegister, resourcesGetNew, available, writeSlot_ok inside]
  exact {
    size := by simpa using ok.size
    bound := room
    freeChain := freeChain.insert (by simpa using notFree)
    claimedChain := claimedChain.congr fun member inChain => by
      refine SlistLinks.insert_of_ne ?_ ?_
      · rintro rfl
        simp at inChain
      · rintro rfl
        exact notClaimed (by simpa using inChain)
    listed := by
      show (resources.nextFreeNdx :: (free ++ claimed)).Perm (List.range (resources.nextFreeNdx + 1))
      rw [List.range_succ]
      exact (ok.listed.cons _).trans (List.perm_append_singleton _ _).symm
    registered := by
      intro ndx below
      by_cases same : resources.nextFreeNdx = ndx
      · subst same
        exact ⟨_, List.getElem?_set_self inside, rfl, rfl⟩
      · rw [List.getElem?_set_ne same]
        exact ok.registered ndx (by have : ndx < resources.nextFreeNdx + 1 := below; omega)
    unowned := by
      intro ndx member r read
      by_cases same : resources.nextFreeNdx = ndx
      · subst same
        rw [List.getElem?_set_self inside] at read
        cases read
        rfl
      · rw [List.getElem?_set_ne same] at read
        rcases List.mem_cons.mp member with equal | member
        · exact absurd equal.symm same
        · exact ok.unowned ndx member r read }

/-- What a claim changes does not matter to later requests. -/
theorem Claims.matchesAt_eq {request : ResourceRequest} {owner ndx : Nat}
    (claims : resources.Claims request owner free claimed next ndx) (other : ResourceRequest) :
    next.matchesAt other = resources.matchesAt other := by
  obtain ⟨r, read, stored⟩ := claims.storage
  funext place
  unfold matchesAt
  rw [stored]
  by_cases same : ndx = place
  · subst same
    rw [List.getElem?_set_self (List.getElem?_eq_some_iff.mp read).1, read]
    simp [other.matches_owner]
  · rw [List.getElem?_set_ne same]

def dataAt (resources : Resources) (ndx : Nat) : Option ResourceData :=
  (resources.storage[ndx]?).map Resource.data

theorem Claims.dataAt_eq {request : ResourceRequest} {owner ndx : Nat}
    (claims : resources.Claims request owner free claimed next ndx) :
    next.dataAt = resources.dataAt := by
  obtain ⟨r, read, stored⟩ := claims.storage
  funext place
  unfold dataAt
  rw [stored]
  by_cases same : ndx = place
  · subst same
    rw [List.getElem?_set_self (List.getElem?_eq_some_iff.mp read).1, read]
    rfl
  · rw [List.getElem?_set_ne same]

/-- Claiming until nothing is left hands out every free resource that matches, once. -/
theorem Ok.claimEvery (ok : resources.Ok free claimed) (deviceId resourceId : CString)
    (enough : maxResources < rounds) {claims : Nat}
    (more : (free.filter (resources.matchesAt (.byId deviceId resourceId))).length < claims) :
    ∃ next, Yaeos.claimEvery rounds deviceId resourceId claims resources = .ok (next,
        (free.filter (resources.matchesAt (.byId deviceId resourceId))).filterMap
          resources.dataAt) ∧
      next.Ok (free.filter fun ndx => !resources.matchesAt (.byId deviceId resourceId) ndx)
        ((free.filter (resources.matchesAt (.byId deviceId resourceId))).reverse ++ claimed) := by
  induction claims generalizing resources free claimed with
  | zero => exact absurd more (Nat.not_lt_zero _)
  | succ claims inductionHypothesis =>
      rcases ok.claim (.byId deviceId resourceId) resOwnerKernel enough with
        ⟨returned, nothing⟩ | ⟨next, ndx, returned, claim⟩
      · have empty : free.filter (resources.matchesAt (.byId deviceId resourceId)) = [] :=
          List.filter_eq_nil_iff.mpr fun ndx member => by simp [nothing ndx member]
        have whole : (free.filter fun ndx =>
            !resources.matchesAt (.byId deviceId resourceId) ndx) = free :=
          List.filter_eq_self.mpr fun ndx member => by simp [nothing ndx member]
        rw [empty, whole]
        exact ⟨resources, (congrArg (· >>= _) returned).trans rfl, ok⟩
      · obtain ⟨before, after, rfl, nothing, nextOk⟩ := claim.wasFree
        have skipped : before.filter (resources.matchesAt (.byId deviceId resourceId)) = [] :=
          List.filter_eq_nil_iff.mpr fun ndx member => by simp [nothing ndx member]
        have matching : (before ++ ndx :: after).filter
              (resources.matchesAt (.byId deviceId resourceId)) =
            ndx :: (before ++ after).filter (resources.matchesAt (.byId deviceId resourceId)) := by
          rw [List.filter_append, List.filter_cons_of_pos claim.matched, List.filter_append,
            skipped, List.nil_append, List.nil_append]
        have others : ((before ++ ndx :: after).filter fun place =>
              !resources.matchesAt (.byId deviceId resourceId) place) =
            (before ++ after).filter fun place =>
              !resources.matchesAt (.byId deviceId resourceId) place := by
          rw [List.filter_append, List.filter_cons_of_neg (by simp [claim.matched]),
            List.filter_append]
        rw [matching, List.length_cons] at more
        have fewer : ((before ++ after).filter
            (next.matchesAt (.byId deviceId resourceId))).length < claims := by
          rw [claim.matchesAt_eq]
          omega
        obtain ⟨last, rest, lastOk⟩ := inductionHypothesis nextOk fewer
        rw [claim.matchesAt_eq, claim.dataAt_eq] at rest
        rw [claim.matchesAt_eq] at lastOk
        obtain ⟨r, read, stored⟩ := claim.storage
        have readNext : readSlot next.storage ndx = .ok { r with owner := resOwnerKernel } := by
          rw [readSlot_eq_ok, stored, List.getElem?_set_self (List.getElem?_eq_some_iff.mp read).1]
        have data : resources.dataAt ndx = some r.data := by simp [dataAt, read]
        refine ⟨last, ?_, ?_⟩
        · refine (congrArg (· >>= _) returned).trans ?_
          simp only [Outcome.ok_bind, readNext, rest, matching]
          rw [List.filterMap_cons_some data]
        · rw [others, matching, List.reverse_cons, List.append_assoc]
          exact lastOk

end Resources

/-- `resources_claim_by_id` or `resources_claim_by_type`. -/
def ResourceRequest.claim (request : ResourceRequest) (resources : Resources) (rounds owner : Nat) :
    Outcome (Resources × Option Nat) :=
  match request with
  | .byId deviceId resourceId => resourcesClaimById resources rounds deviceId resourceId owner
  | .byType type => resourcesClaimByType resources rounds type owner

/-- `resources_kclaim_by_id` or `resources_kclaim_by_type`. -/
def ResourceRequest.kclaim (request : ResourceRequest) (resources : Resources) (rounds : Nat) :
    Outcome (Resources × Option Nat) :=
  match request with
  | .byId deviceId resourceId => resourcesKclaimById resources rounds deviceId resourceId
  | .byType type => resourcesKclaimByType resources rounds type

theorem ResourceRequest.claim_eq (request : ResourceRequest) (resources : Resources)
    (rounds owner : Nat) :
    request.claim resources rounds owner = resources.claimBy rounds request.test owner := by
  cases request <;> rfl

theorem ResourceRequest.kclaim_eq (request : ResourceRequest) (resources : Resources)
    (rounds : Nat) :
    request.kclaim resources rounds =
      resources.claimBy rounds request.test resOwnerKernel := by
  cases request <;> rfl

inductive ResourceCall where
  | register (deviceId resourceId : CString) (type : ResourceType) (data : ResourceData)
  | claim (request : ResourceRequest) (owner : Nat)
  | kclaim (request : ResourceRequest)
  deriving DecidableEq, Repr

/-- The resources with what the claims of the run returned, the last one first. -/
structure ResourcesLog where
  resources : Resources
  claims : List Nat

namespace ResourcesLog

/-- A call whose search is given `rounds` rounds. -/
def call (rounds : Nat) (log : ResourcesLog) : ResourceCall → Outcome ResourcesLog
  | .register deviceId resourceId type data => do
      let resources ← resourcesRegister log.resources deviceId resourceId type data
      .ok { log with resources := resources }
  | .claim request owner => do
      let (resources, claimed) ← request.claim log.resources rounds owner
      .ok { resources := resources, claims := claimed.toList ++ log.claims }
  | .kclaim request => do
      let (resources, claimed) ← request.kclaim log.resources rounds
      .ok { resources := resources, claims := claimed.toList ++ log.claims }

end ResourcesLog

/-- The runs from `resources_init` on.  A search that is given more rounds than
there can be resources has as many as it needs. -/
def resourcesMachine : Machine ResourcesLog ResourceCall where
  initial log := log = { resources := resourcesInit resourcesBoot, claims := [] }
  step log call next := ∃ rounds, maxResources < rounds ∧ log.call rounds call = .ok next

namespace ResourcesLog

open Resources

variable {log next : ResourcesLog} {rounds : Nat}

/-- The claimed list is the log of the claims. -/
def Ok (log : ResourcesLog) (free : List Nat) : Prop := log.resources.Ok free log.claims

theorem Ok.claimBy {free : List Nat} (ok : log.Ok free) (request : ResourceRequest) (owner : Nat)
    (enough : maxResources < rounds) {resources : Resources} {claimed : Option Nat}
    (returned : log.resources.claimBy rounds request.test owner = .ok (resources, claimed)) :
    ∃ free, Ok { resources := resources, claims := claimed.toList ++ log.claims } free := by
  rcases Resources.Ok.claim ok request owner enough with
    ⟨expected, -⟩ | ⟨next, ndx, expected, claim⟩
  · cases returned.symm.trans expected
    exact ⟨free, ok⟩
  · cases returned.symm.trans expected
    obtain ⟨before, after, -, -, nextOk⟩ := claim.wasFree
    exact ⟨_, nextOk⟩

theorem Ok.call {free : List Nat} (ok : log.Ok free) (enough : maxResources < rounds)
    (call : ResourceCall) (returned : log.call rounds call = .ok next) :
    ∃ free, next.Ok free := by
  cases call with
  | register deviceId resourceId type data =>
      obtain ⟨resources, registered, rest⟩ := Outcome.bind_eq_ok.mp returned
      cases rest
      have room : log.resources.nextFreeNdx < maxResources := by
        by_contra full
        have last : log.resources.nextFreeNdx > log.resources.storage.length - 1 := by
          rw [Resources.Ok.size ok]
          unfold maxResources at *
          omega
        simp [resourcesRegister, resourcesGetNew, last] at registered
      obtain ⟨after, expected, afterOk⟩ :=
        Resources.Ok.register ok room deviceId resourceId type data
      cases registered.symm.trans expected
      exact ⟨_, afterOk⟩
  | claim request owner =>
      obtain ⟨⟨resources, claimed⟩, taken, rest⟩ := Outcome.bind_eq_ok.mp returned
      cases rest
      exact ok.claimBy request owner enough (request.claim_eq .. ▸ taken)
  | kclaim request =>
      obtain ⟨⟨resources, claimed⟩, taken, rest⟩ := Outcome.bind_eq_ok.mp returned
      cases rest
      exact ok.claimBy request resOwnerKernel enough (request.kclaim_eq .. ▸ taken)

theorem ok_of_reachable (reached : resourcesMachine.Reachable log) : ∃ free, log.Ok free := by
  have base : ∀ state, resourcesMachine.initial state → ∃ free, state.Ok free := by
    rintro _ rfl
    exact ⟨[], init_ok⟩
  have preserved : ∀ state action next, (∃ free, Ok state free) →
      resourcesMachine.step state action next → ∃ free, next.Ok free := by
    rintro state action next ⟨free, ok⟩ ⟨rounds, enough, returned⟩
    exact ok.call enough action returned
  exact reached.invariant base preserved

/-- What a claim answers, given the lists before it. -/
def Answers (log : ResourcesLog) (free : List Nat) (request : ResourceRequest) (owner : Nat)
    (outcome : Outcome (Resources × Option Nat)) : Prop :=
  (outcome = .ok (log.resources, none) ∧ log.resources.NothingFree request free) ∨
  ∃ next ndx, outcome = .ok (next, some ndx) ∧ ndx ∈ free ∧ ndx ∉ log.claims ∧
    log.resources.Claims request owner free log.claims next ndx

theorem Ok.answers {free : List Nat} (ok : log.Ok free) (request : ResourceRequest) (owner : Nat)
    (enough : maxResources < rounds) :
    log.Answers free request owner (log.resources.claimBy rounds request.test owner) := by
  rcases Resources.Ok.claim ok request owner enough with nothing | ⟨next, ndx, returned, claim⟩
  · exact Or.inl nothing
  · obtain ⟨before, after, rfl, -, -⟩ := claim.wasFree
    have member : ndx ∈ before ++ ndx :: after := List.mem_append_right _ List.mem_cons_self
    refine Or.inr ⟨next, ndx, returned, member, fun claimed => ?_, claim⟩
    exact (List.nodup_append.mp (Resources.Ok.nodup ok)).2.2 ndx member ndx claimed rfl

/-- The calls of a list, each with more rounds than there can be resources. -/
def after (calls : List ResourceCall) : Outcome ResourcesLog :=
  calls.foldlM (call (maxResources + 1)) { resources := resourcesInit resourcesBoot, claims := [] }

theorem reachable_after {calls : List ResourceCall} (returned : after calls = .ok log) :
    resourcesMachine.Reachable log := by
  have enabled : ∀ state action next, call (maxResources + 1) state action = .ok next →
      resourcesMachine.step state action next :=
    fun _ _ _ called => ⟨maxResources + 1, Nat.lt_succ_self _, called⟩
  exact (Machine.Reachable.initial rfl).foldlM enabled returned

end ResourcesLog

end Yaeos
