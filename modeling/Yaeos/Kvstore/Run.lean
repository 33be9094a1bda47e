import Yaeos.Kvstore.Slots
import Yaeos.Machine.FiniteMap
import Yaeos.Machine.Run

/-!
# Runs over a key-value store

A store represents a finite map over the classes of keys that its comparison
function tells apart.  An append keeps that on every store; a removal or a change
does when no slot is empty, and calls the comparison function with `NULL` when
there is an empty one.
-/

namespace Yaeos

open Classical

variable {Key Value : Type}

inductive KvStoreCall (Key Value : Type) where
  | append (key : Key) (val : Option Value)
  | remove (key : Key)
  | change (key : Key) (val : Option Value)
  deriving DecidableEq, Repr

namespace KvStore

def call (kv : KvStore Key Value) : KvStoreCall Key Value → Outcome (KvStore Key Value)
  | .append key val => kvstoreAppend kv (some key) val
  | .remove key => kvstoreRemove kv (some key)
  | .change key val => kvstoreChange kv (some key) val

variable [setoid : Setoid Key]

/-- An appended key is fresh and finds an empty slot. -/
def Legal (kv : KvStore Key Value) : KvStoreCall Key Value → Prop
  | .append key _ => (∀ pair ∈ kv.entries, ¬pair.1 ≈ key) ∧ none ∈ kv.keys
  | .remove _ => True
  | .change _ _ => True

omit setoid in
/-- Removals and changes find no empty slot. -/
def Filled (kv : KvStore Key Value) : KvStoreCall Key Value → Prop
  | .append _ _ => True
  | .remove _ => none ∉ kv.keys
  | .change _ _ => none ∉ kv.keys

end KvStore

section

variable [setoid : Setoid Key]

/-- The runs from `kvstore_create` on, with any memory, capacity and equality test. -/
def kvstoreMachine (Key Value : Type) [Setoid Key] :
    Machine (KvStore Key Value) (KvStoreCall Key Value) where
  initial kv := ∃ mem cap cmpfn oldKeys oldValues, KvStore.EqualityTest cmpfn ∧
    kvstoreCreate mem cap (some cmpfn) oldKeys oldValues = .ok (some kv)
  step kv call next := kv.Legal call ∧ kv.call call = .ok next

/-- What a call does to the map. -/
noncomputable def KvStoreCall.apply (map : ClassMap Key (Option Value)) :
    KvStoreCall Key Value → ClassMap Key (Option Value)
  | .append key val => map.insert ⟦key⟧ val
  | .remove key => map.erase ⟦key⟧
  | .change key val => if ⟦key⟧ ∈ map then map.insert ⟦key⟧ val else map

/-- The map after a sequence of calls. -/
noncomputable def mapAfter (calls : List (KvStoreCall Key Value)) : ClassMap Key (Option Value) :=
  calls.foldl KvStoreCall.apply ∅

theorem mapAfter_append (calls : List (KvStoreCall Key Value)) (call : KvStoreCall Key Value) :
    mapAfter (calls ++ [call]) = call.apply (mapAfter calls) := by
  rw [mapAfter, List.foldl_append]
  rfl

end

namespace KvStore

variable [setoid : Setoid Key] {kv next : KvStore Key Value} {map : ClassMap Key (Option Value)}
  {cap : Nat}

/-- The store is in order and shows the map; an empty slot has no value. -/
structure Ok (kv : KvStore Key Value) (map : ClassMap Key (Option Value)) : Prop where
  sound : Sound kv.cap kv
  represents : Represents kv.entries map
  cleared : ∀ slot ∈ kv.slots, slot.1 = none → slot.2 = none

/-- `kvstore_find`, `kvstore_length` and `kvstore_iter` tell what the map contains. -/
structure Reports (kv : KvStore Key Value) (map : ClassMap Key (Option Value)) : Prop where
  find : ∀ key, ∃ after, kvstoreFind kv (some key) = .ok (after, map.lookup ⟦key⟧) ∧
    after = { kv with compared := after.compared } ∧ WithoutNull after.compared
  length : kvstoreLength kv = .ok map.keys.card
  iter : ∃ called, kvstoreIter kv = .ok called ∧
    map.entries = Multiset.ofList (called.map fun pair => ⟨⟦pair.1⟧, pair.2⟩)

theorem Ok.reports (ok : kv.Ok map) : kv.Reports map where
  find key := by
    obtain ⟨after, found, returned, same, sound, finds⟩ := ok.sound.find key
    have agrees : found = map.lookup ⟦key⟧ := by
      cases found with
      | none =>
          symm
          rw [Finmap.lookup_eq_none, ok.represents.mem_iff]
          rintro ⟨pair, member, similar⟩
          exact finds.1 rfl pair member similar
      | some value =>
          symm
          exact ok.represents.lookup_key.mpr (finds.2 value rfl)
    rw [agrees] at returned
    exact ⟨after, returned, same, sound.compared⟩
  length := by rw [ok.sound.length, ok.represents.card_keys]
  iter := ⟨kv.entries, ok.sound.iter, ok.represents.entries_eq⟩

theorem mem_keys_iff (sound : Sound cap kv) : none ∈ kv.keys ↔ ∃ slot ∈ kv.slots, slot.1 = none := by
  have keys : kv.slots.map Prod.fst = kv.keys :=
    List.map_fst_zip (by rw [sound.keysLength, sound.valuesLength])
  rw [← keys, List.mem_map]

theorem isSome_of_full (sound : Sound cap kv) (full : none ∉ kv.keys) :
    ∀ slot ∈ kv.slots, slot.1.isSome := by
  intro slot member
  refine Option.isSome_iff_ne_none.mpr fun empty => full ?_
  exact (mem_keys_iff sound).mpr ⟨slot, member, empty⟩

theorem Ok.append (ok : kv.Ok map) {key : Key} (val : Option Value)
    (legal : kv.Legal (.append key val)) :
    ∃ next, kvstoreAppend kv (some key) val = .ok next ∧ next.Ok (map.insert ⟦key⟧ val) ∧
      next.cap = kv.cap := by
  obtain ⟨fresh, hole⟩ := legal
  obtain ⟨next, before, after, returned, sound, split, written⟩ :=
    ok.sound.append val fresh ((mem_keys_iff ok.sound).mp hole) ok.cleared
  have entries : kv.entries = before.filterMap entry ++ after.filterMap entry := by
    rw [KvStore.entries, split, List.filterMap_append]
    rfl
  have nextEntries : next.entries =
      before.filterMap entry ++ (key, val) :: after.filterMap entry := by
    rw [KvStore.entries, written, List.filterMap_append]
    rfl
  have absent : (⟦key⟧ : Quotient setoid) ∉ map := by
    rw [ok.represents.mem_iff]
    rintro ⟨pair, member, similar⟩
    exact fresh pair member similar
  refine ⟨next, returned, ⟨sound.capacity ▸ sound, ?_, ?_⟩, sound.capacity⟩
  · rw [nextEntries]
    exact (entries ▸ ok.represents).insert absent
  · intro slot member empty
    rw [written] at member
    rcases List.mem_append.mp member with member | member
    · exact ok.cleared slot (split ▸ List.mem_append_left _ member) empty
    · rcases List.mem_cons.mp member with rfl | member
      · cases empty
      · exact ok.cleared slot
          (split ▸ List.mem_append_right _ (List.mem_cons_of_mem _ member)) empty

/-- An append is legal if its key is new and the map is smaller than the capacity. -/
theorem Ok.legal_append_iff (ok : kv.Ok map) {key : Key} (val : Option Value) :
    kv.Legal (.append key val) ↔ ⟦key⟧ ∉ map ∧ map.keys.card < kv.cap := by
  have fresh : (∀ pair ∈ kv.entries, ¬pair.1 ≈ key) ↔ ⟦key⟧ ∉ map := by
    rw [ok.represents.mem_iff]
    push Not
    rfl
  have all : kv.entries.length = kv.cap ↔ ∀ slot ∈ kv.slots, slot.1.isSome := by
    rw [← ok.sound.length_slots, KvStore.entries, List.length_filterMap_eq_countP,
      List.countP_eq_length]
    refine forall_congr' fun slot => imp_congr_right fun _ => ?_
    obtain ⟨_ | present, value⟩ := slot
    · simp
    · simp
  have hole : none ∈ kv.keys ↔ map.keys.card < kv.cap := by
    rw [mem_keys_iff ok.sound, ok.represents.card_keys, ok.sound.length_entries_le.lt_iff_ne, Ne, all]
    push Not
    simp
  exact and_congr fresh hole

/-- An append that is not legal fails an assertion. -/
theorem Ok.append_illegal (ok : kv.Ok map) {key : Key} (val : Option Value)
    (illegal : ¬kv.Legal (.append key val)) :
    kvstoreAppend kv (some key) val = .error .kassert := by
  by_cases present : ∃ pair ∈ kv.entries, pair.1 ≈ key
  · exact ok.sound.append_duplicate val present
  · refine ok.sound.append_full val (isSome_of_full ok.sound fun hole => illegal ⟨?_, hole⟩)
    intro pair member similar
    exact present ⟨pair, member, similar⟩

omit setoid in
/-- The append of one pair of a list. -/
def appendPair (kv : KvStore Key Value) (pair : Key × Option Value) :
    Outcome (KvStore Key Value) :=
  kvstoreAppend kv (some pair.1) pair.2

/-- The keys of the pairs are new and distinct, and there is a slot for each. -/
structure Appendable (map : ClassMap Key (Option Value)) (cap : Nat)
    (pairs : List (Key × Option Value)) : Prop where
  distinct : (pairs.map fun pair => (⟦pair.1⟧ : Quotient setoid)).Nodup
  fresh : ∀ pair ∈ pairs, ⟦pair.1⟧ ∉ map
  room : map.keys.card + pairs.length ≤ cap

theorem Appendable.names {pairs : List (Key × Option Value)} (appendable : Appendable map cap pairs) :
    (pairs.map Prod.fst).Nodup := by
  have classes := appendable.distinct
  rw [show (fun pair : Key × Option Value => (⟦pair.1⟧ : Quotient setoid)) =
    (fun key => ⟦key⟧) ∘ Prod.fst from rfl, ← List.map_map] at classes
  exact List.Nodup.of_map _ classes

theorem appendable_cons {pair : Key × Option Value} {rest : List (Key × Option Value)} :
    Appendable map cap (pair :: rest) ↔ ⟦pair.1⟧ ∉ map ∧ map.keys.card < cap ∧
      Appendable (map.insert ⟦pair.1⟧ pair.2) cap rest := by
  constructor
  · rintro ⟨distinct, fresh, room⟩
    obtain ⟨first, others⟩ := List.nodup_cons.mp distinct
    have new := fresh pair List.mem_cons_self
    rw [List.length_cons] at room
    refine ⟨new, by omega, others, fun other member => ?_, by rw [card_insert new]; omega⟩
    rw [Finmap.mem_insert]
    rintro (same | old)
    · exact first (List.mem_map.mpr ⟨other, member, same⟩)
    · exact fresh other (List.mem_cons_of_mem _ member) old
  · rintro ⟨new, -, others, fresh, room⟩
    rw [card_insert new] at room
    refine ⟨List.nodup_cons.mpr ⟨fun repeated => ?_, others⟩, fun other member => ?_, ?_⟩
    · obtain ⟨other, member, same⟩ := List.mem_map.mp repeated
      exact fresh other member (Finmap.mem_insert.mpr (.inl same))
    · rcases List.mem_cons.mp member with rfl | member
      · exact new
      · exact fun old => fresh other member (Finmap.mem_insert.mpr (.inr old))
    · rw [List.length_cons]
      omega

/-- Pairs are appended one after the other if their keys are new and distinct and there
is a slot for each; otherwise an assertion fails. -/
theorem Ok.appends (ok : kv.Ok map) (pairs : List (Key × Option Value)) :
    if Appendable map kv.cap pairs then
      ∃ next, pairs.foldlM appendPair kv = .ok next ∧
        next.Ok (insertAll map pairs)
    else pairs.foldlM appendPair kv = .error .kassert := by
  induction pairs generalizing kv map with
  | nil =>
      have fits : Appendable map kv.cap ([] : List (Key × Option Value)) :=
        ⟨List.nodup_nil, nofun, ok.represents.card_keys ▸ ok.sound.length_entries_le⟩
      rw [if_pos fits]
      exact ⟨kv, rfl, ok⟩
  | cons pair rest inductionHypothesis =>
      rw [List.foldlM_cons]
      by_cases legal : kv.Legal (.append pair.1 pair.2)
      · obtain ⟨next, returned, nextOk, same⟩ := ok.append pair.2 legal
        have fits : Appendable map kv.cap (pair :: rest) ↔
            Appendable (map.insert ⟦pair.1⟧ pair.2) next.cap rest := by
          rw [appendable_cons, ← and_assoc, ← ok.legal_append_iff pair.2, same]
          exact and_iff_right legal
        have step : appendPair kv pair = .ok next := returned
        rw [step, Outcome.ok_bind, if_congr fits rfl rfl]
        exact inductionHypothesis nextOk
      · have unfit : ¬Appendable map kv.cap (pair :: rest) := fun fits =>
          legal ((ok.legal_append_iff _).mpr
            ⟨(appendable_cons.mp fits).1, (appendable_cons.mp fits).2.1⟩)
        have stopped : appendPair kv pair = .error .kassert := ok.append_illegal pair.2 legal
        rw [if_neg unfit, stopped, Outcome.error_bind]

/-- A map whose pairs are listed by `kvstore_iter`. -/
theorem Ok.iter_lookup (ok : kv.Ok map) : ∃ called, kvstoreIter kv = .ok called ∧
    ∀ key value, map.lookup ⟦key⟧ = some value → ∃ pair ∈ called, pair.1 ≈ key ∧ pair.2 = value :=
  ⟨kv.entries, ok.sound.iter, fun _ _ => ok.represents.lookup_key.mp⟩

theorem clearSlot_ok (kv : KvStore Key Value) (index : Nat)
    (slot : Option Key × Option Value) (sound : Sound cap kv)
    (read : kv.slots[index]? = some slot) :
    ∃ next, kv.clearSlot index = .ok next ∧ Sound cap next ∧
      next.slots = kv.slots.set index (none, none) := by
  obtain ⟨keys, values, wroteKey, wroteValue, nextSound, written⟩ :=
    sound.write (sound.inside read) none none
  exact ⟨_, by simp [clearSlot, wroteKey, wroteValue], nextSound, written⟩

theorem setValue_ok (val : Option Value) (kv : KvStore Key Value) (index : Nat)
    (slot : Option Key × Option Value) (sound : Sound cap kv)
    (read : kv.slots[index]? = some slot) :
    ∃ next, setValue val kv index = .ok next ∧ Sound cap next ∧
      next.slots = kv.slots.set index (slot.1, val) := by
  obtain ⟨keys, values, wroteKey, wroteValue, nextSound, written⟩ :=
    sound.write (sound.inside read) slot.1 val
  have same : keys = kv.keys := by
    have inside := sound.inside read
    rw [← sound.keysLength] at inside
    have atIndex := (List.getElem?_zip_eq_some.mp read).1
    rw [writeSlot_ok inside] at wroteKey
    cases wroteKey
    rw [← (List.getElem?_eq_some_iff.mp atIndex).2, List.set_getElem_self]
  subst same
  exact ⟨_, by simp [setValue, wroteValue], nextSound, written⟩

theorem Ok.remove (ok : kv.Ok map) (key : Key) (full : none ∉ kv.keys) :
    ∃ next, kvstoreRemove kv (some key) = .ok next ∧ next.Ok (map.erase ⟦key⟧) := by
  have keyed := isSome_of_full ok.sound full
  obtain ⟨next, returned, sound, mapped⟩ :=
    ok.sound.onEqual keyed key clearSlot_ok
  refine ⟨next, returned, sound.capacity ▸ sound, ?_, ?_⟩
  · have entries : next.entries = kv.entries.filter fun pair => ¬pair.1 ≈ key := by
      rw [KvStore.entries, mapped, List.filterMap_map, KvStore.entries, List.filter_filterMap]
      refine List.filterMap_congr fun slot member => ?_
      obtain ⟨present, value⟩ := slot
      obtain ⟨present, rfl⟩ := Option.isSome_iff_exists.mp (keyed _ member)
      by_cases similar : present ≈ key
      · simp [changeEqual, Option.filter_some, similar]
      · simp [changeEqual, Option.filter_some, similar]
    rw [entries]
    exact ok.represents.erase key
  · intro slot member empty
    rw [mapped] at member
    obtain ⟨old, source, rfl⟩ := List.mem_map.mp member
    unfold changeEqual at empty ⊢
    split
    · rfl
    · next same =>
        rw [if_neg same] at empty
        exact ok.cleared old source empty

theorem Ok.change (ok : kv.Ok map) (key : Key) (val : Option Value) (full : none ∉ kv.keys) :
    ∃ next, kvstoreChange kv (some key) val = .ok next ∧
      next.Ok (if ⟦key⟧ ∈ map then map.insert ⟦key⟧ val else map) := by
  have keyed := isSome_of_full ok.sound full
  obtain ⟨next, returned, sound, mapped⟩ :=
    ok.sound.onEqual keyed key (setValue_ok val)
  have keeps : ∀ slot ∈ next.slots, slot.1.isSome := by
    intro slot member
    rw [mapped] at member
    obtain ⟨old, source, rfl⟩ := List.mem_map.mp member
    unfold changeEqual
    split
    · exact keyed old source
    · exact keyed old source
  refine ⟨next, returned, sound.capacity ▸ sound, ?_, ?_⟩
  · have entries : next.entries =
        kv.entries.map fun pair => if pair.1 ≈ key then (pair.1, val) else pair := by
      rw [KvStore.entries, mapped, List.filterMap_map, KvStore.entries, List.map_filterMap]
      refine List.filterMap_congr fun slot member => ?_
      obtain ⟨present, value⟩ := slot
      obtain ⟨present, rfl⟩ := Option.isSome_iff_exists.mp (keyed _ member)
      by_cases similar : present ≈ key
      · simp [changeEqual, similar]
      · simp [changeEqual, similar]
    rw [entries]
    exact ok.represents.replace key val
  · intro slot member empty
    have present := keeps slot member
    rw [empty] at present
    cases present

omit setoid in
theorem clearSlot_iff {index : Nat} : kv.clearSlot index = .ok next ↔
    index < kv.keys.length ∧ index < kv.values.length ∧
      next = { kv with keys := kv.keys.set index none, values := kv.values.set index none } := by
  unfold clearSlot writeSlot
  by_cases keyInside : index < kv.keys.length
  · by_cases valueInside : index < kv.values.length
    · simp [keyInside, valueInside, eq_comm]
    · simp [keyInside, valueInside]
  · simp [keyInside]

/-- The slots before an index are empty, the others are as they were. -/
def emptied (kv : KvStore Key Value) (index : Nat) : KvStore Key Value :=
  { kv with
    keys := List.replicate index none ++ kv.keys.drop index
    values := List.replicate index none ++ kv.values.drop index }

theorem set_emptied {Slot : Type} {array : List (Option Slot)} {index : Nat}
    (inside : index < array.length) :
    (List.replicate index none ++ array.drop index).set index none =
      List.replicate (index + 1) none ++ array.drop (index + 1) := by
  rw [List.set_append_right _ _ (List.length_replicate ..).le, List.length_replicate, Nat.sub_self,
    List.drop_eq_getElem_cons inside, List.set_cons_zero, List.replicate_succ', List.append_assoc]
  rfl

omit setoid in
/-- The loop of `kvstore_create`. -/
theorem clearSlots_iff {count : Nat} : (List.range count).foldlM clearSlot kv = .ok next ↔
    count ≤ kv.keys.length ∧ count ≤ kv.values.length ∧ next = kv.emptied count := by
  induction count generalizing next with
  | zero =>
      simp only [Nat.zero_le, true_and]
      exact ⟨fun returned => (Except.ok.inj returned).symm, fun same => same ▸ rfl⟩
  | succ count inductionHypothesis =>
      rw [List.range_succ, List.foldlM_append, Outcome.bind_eq_ok]
      simp only [List.foldlM_cons, List.foldlM_nil, bind_pure, clearSlot_iff, inductionHypothesis]
      constructor
      · rintro ⟨_, ⟨keys, values, rfl⟩, keyInside, valueInside, rfl⟩
        simp only [emptied, List.length_append, List.length_replicate, List.length_drop] at *
        have keys' : count < kv.keys.length := by omega
        have values' : count < kv.values.length := by omega
        rw [set_emptied keys', set_emptied values']
        exact ⟨keys', values', rfl⟩
      · rintro ⟨keys, values, rfl⟩
        refine ⟨kv.emptied count, ⟨Nat.le_of_lt keys, Nat.le_of_lt values, rfl⟩, ?_, ?_, ?_⟩
        · simp only [emptied, List.length_append, List.length_replicate, List.length_drop]
          omega
        · simp only [emptied, List.length_append, List.length_replicate, List.length_drop]
          omega
        · rw [emptied, emptied, set_emptied keys, set_emptied values]

/-- What was created has as many slots as its capacity says, and all of them are empty. -/
theorem created_ok {mem capacity : Nat} {cmpfn : KvstoreFnCmpkeys Key} {oldKeys : Nat → Option Key}
    {oldValues : Nat → Option Value} (equality : EqualityTest cmpfn)
    (created : kvstoreCreate mem capacity (some cmpfn) oldKeys oldValues = .ok (some kv)) :
    kv.Ok ∅ ∧ kv.cap = capacity := by
  unfold kvstoreCreate at created
  obtain ⟨alloc, -, created⟩ := Outcome.bind_eq_ok.mp created
  dsimp only at created
  split at created
  · cases created
  split at created
  · cases created
  split at created
  · cases created
  obtain ⟨_, looped, created⟩ := Outcome.bind_eq_ok.mp created
  obtain ⟨_, -, created⟩ := Outcome.bind_eq_ok.mp created
  cases created
  generalize slotsEq : wrap (capacity * sizeofKvstoreSlot) / sizeofKvstoreSlot = count at looped
  have few : count ≤ capacity := by
    rw [← slotsEq]
    unfold wrap sizeofKvstoreSlot
    have reduced := Nat.mod_le (capacity * 4) addressSpace
    omega
  obtain ⟨enough, -, rfl⟩ := clearSlots_iff.mp looped
  have all : count = capacity := Nat.le_antisymm few (by simpa using enough)
  subst all
  have blank : emptied ⟨(List.range count).map oldKeys, count, (List.range count).map oldValues,
      cmpfn, []⟩ count = ⟨List.replicate count none, count, List.replicate count none, cmpfn, []⟩ := by
    simp [emptied]
  rw [blank]
  have bare : ∀ slot ∈ (List.replicate count (none : Option Key)).zip
      (List.replicate count (none : Option Value)), slot = (none, none) := by
    rintro ⟨key, value⟩ member
    obtain ⟨keyMember, valueMember⟩ := List.of_mem_zip member
    rw [List.eq_of_mem_replicate keyMember, List.eq_of_mem_replicate valueMember]
  refine ⟨⟨⟨rfl, List.length_replicate, List.length_replicate, equality, List.forall_mem_nil _⟩,
    ?_, ?_⟩, rfl⟩
  · have none : (⟨List.replicate count none, count, List.replicate count none, cmpfn, []⟩ :
        KvStore Key Value).entries = [] := by
      rw [entries, List.filterMap_eq_nil_iff]
      intro slot member
      rw [bare slot member]
      rfl
    rw [none]
    exact Represents.empty
  · intro slot member _
    rw [bare slot member]

omit setoid in
/-- Memory that holds the record and both arrays is enough for a store of any capacity. -/
theorem kvstoreCreate_ok {mem capacity : Nat} (cmpfn : KvstoreFnCmpkeys Key)
    (oldKeys : Nat → Option Key) (oldValues : Nat → Option Value) (named : mem ≠ 0)
    (inside : mem + (16 + 8 * capacity) < addressSpace) :
    ∃ kv, kvstoreCreate mem capacity (some cmpfn) oldKeys oldValues = .ok (some kv) := by
  have slots : wrap (capacity * sizeofKvstoreSlot) = capacity * 4 := wrap_of_lt (by
    unfold sizeofKvstoreSlot
    omega)
  have total : kvstorePredictReqmem capacity = 16 + 8 * capacity := by
    have record : wrap (0 + sizeofKvstore) = 16 := wrap_of_lt (by decide)
    have array : wrap (16 + capacity * 4) = 16 + capacity * 4 := wrap_of_lt (by omega)
    simp only [kvstorePredictReqmem, slots, record, array]
    rw [wrap_of_lt (by omega)]
    omega
  have count : capacity * 4 / sizeofKvstoreSlot = capacity := Nat.mul_div_cancel _ (by decide)
  let fresh : KvStore Key Value :=
    { keys := (List.range capacity).map oldKeys, cap := capacity,
      values := (List.range capacity).map oldValues, cmpfn := cmpfn }
  have looped : (List.range capacity).foldlM clearSlot fresh = .ok (fresh.emptied capacity) :=
    clearSlots_iff.mpr ⟨by simp [fresh], by simp [fresh], rfl⟩
  refine ⟨fresh.emptied capacity, ?_⟩
  have first : wrap (mem + sizeofKvstore) = mem + 16 := wrap_of_lt (by
    unfold sizeofKvstore
    omega)
  have second : wrap (mem + 16 + capacity * 4) = mem + 16 + capacity * 4 := wrap_of_lt (by omega)
  have third : wrap (mem + 16 + capacity * 4 + capacity * 4) = mem + (16 + 8 * capacity) := by
    rw [wrap_of_lt (by omega)]
    omega
  have occupied : wrapSub (mem + (16 + 8 * capacity)) mem = 16 + 8 * capacity := by
    rw [wrapSub_of_le (by omega) inside]
    omega
  have room : 0 < 16 + 8 * capacity := by omega
  have fits : ¬mem + 16 > mem + (16 + 8 * capacity) := by omega
  have fits' : ¬mem + 16 + capacity * 4 > mem + (16 + 8 * capacity) := by omega
  simp only [kvstoreCreate, linearAllocInit, total, kassert_ok named, kassert_ok room,
    Outcome.ok_bind, linearAllocAlloc, wrap_of_lt inside, first, fits, if_false, slots, second,
    fits', third, Nat.lt_irrefl, gt_iff_lt, count, linearAllocOccupied, occupied, kassert_true,
    reduceCtorEq]
  exact (congrArg (· >>= _) looped).trans rfl

/-- A call on a store that `Filled` admits keeps the store in step with the map. -/
theorem Ok.call (ok : kv.Ok map) (call : KvStoreCall Key Value) (legal : kv.Legal call)
    (filled : kv.Filled call) : ∃ next, kv.call call = .ok next ∧ next.Ok (call.apply map) := by
  cases call with
  | append key val =>
      obtain ⟨next, returned, nextOk, -⟩ := ok.append val legal
      exact ⟨next, returned, nextOk⟩
  | remove key => exact ok.remove key filled
  | change key val => exact ok.change key val filled

/-- The call returns, the store shows the map after it, and `NULL` was not compared. -/
def Meets (kv : KvStore Key Value) (calls : List (KvStoreCall Key Value))
    (call : KvStoreCall Key Value) : Prop :=
  ∃ next, kv.call call = .ok next ∧ next.Reports (mapAfter (calls ++ [call])) ∧
    WithoutNull next.compared

theorem meets_iff {calls : List (KvStoreCall Key Value)} (ok : kv.Ok (mapAfter calls))
    (call : KvStoreCall Key Value) (legal : kv.Legal call) :
    kv.Meets calls call ↔ kv.Filled call := by
  constructor
  · rintro ⟨next, returned, -, clean⟩
    -- an empty slot is compared in the round that comes to it
    have hole : none ∈ kv.keys → ∃ place : Nat, kv.keys[place]? = some none ∧ place < kv.cap := by
      intro member
      obtain ⟨place, read⟩ := List.mem_iff_getElem?.mp member
      have inside := (List.getElem?_eq_some_iff.mp read).1
      rw [ok.sound.keysLength] at inside
      exact ⟨place, read, inside⟩
    cases call with
    | append key val => trivial
    | remove key =>
        intro member
        obtain ⟨place, read, inside⟩ := hole member
        exact compared_null read inside clearSlot_changes returned clean
    | change key val =>
        intro member
        obtain ⟨place, read, inside⟩ := hole member
        exact compared_null read inside (setValue_changes val) returned clean
  · intro filled
    obtain ⟨next, returned, nextOk⟩ := ok.call call legal filled
    rw [← mapAfter_append] at nextOk
    exact ⟨next, returned, nextOk.reports, nextOk.sound.compared⟩

theorem ok_of_trace {start : KvStore Key Value} {calls : List (KvStoreCall Key Value)}
    (initial : (kvstoreMachine Key Value).initial start)
    (trace : ((kvstoreMachine Key Value).guard Filled).Trace start calls kv) :
    kv.Ok (mapAfter calls) := by
  induction trace with
  | nil =>
      obtain ⟨_, _, _, _, _, equality, created⟩ := initial
      exact (created_ok equality created).1
  | @snoc calls state call next _ stepped inductionHypothesis =>
      obtain ⟨filled, legal, returned⟩ := stepped
      obtain ⟨after, afterReturned, ok⟩ := inductionHypothesis.call call legal filled
      cases returned.symm.trans afterReturned
      rwa [mapAfter_append]

/-- In a run whose removals and changes find no empty slot the store shows the map
of the calls and never compares `NULL`; a further call does so exactly if it, too,
finds no empty slot when it removes or changes. -/
theorem map_iff_filled {start : KvStore Key Value} {calls : List (KvStoreCall Key Value)}
    (initial : (kvstoreMachine Key Value).initial start)
    (trace : ((kvstoreMachine Key Value).guard Filled).Trace start calls kv) :
    kv.Reports (mapAfter calls) ∧ WithoutNull kv.compared ∧
      ∀ call, kv.Legal call → (kv.Meets calls call ↔ kv.Filled call) := by
  have ok := ok_of_trace initial trace
  exact ⟨ok.reports, ok.sound.compared, fun call legal => meets_iff ok call legal⟩

end KvStore

/-- A string somewhere in memory; strings are compared by their bytes. -/
structure KvName where
  address : Nat
  bytes : List Nat
  deriving DecidableEq, Repr

instance : Setoid KvName where
  r first second := first.bytes = second.bytes
  iseqv := ⟨fun _ => rfl, Eq.symm, Eq.trans⟩

/-- A comparison that reads both strings, as `strcmp` does. -/
def compareNames : KvstoreFnCmpkeys KvName
  | some lhs, some rhs => .ok (if lhs.bytes = rhs.bytes then 0 else 1)
  | _, _ => .error .nullDeref

theorem compareNames_equality : KvStore.EqualityTest compareNames := by
  intro lhs rhs
  refine ⟨_, rfl, ?_⟩
  show (if lhs.bytes = rhs.bytes then (0 : Int) else 1) = 0 ↔ lhs.bytes = rhs.bytes
  split <;> simp_all

/-- A store of strings that was just created. -/
def namesStore (cap : Nat) : KvStore KvName Nat where
  keys := List.replicate cap none
  cap := cap
  values := List.replicate cap none
  cmpfn := compareNames

/-- The string `"a"` at two addresses. -/
def nameHere : KvName := { address := 4096, bytes := [97] }

def nameThere : KvName := { address := 8192, bytes := [97] }

namespace KvStore

/-- A store with room for one pair, filled; the value is then changed through another
copy of the key. -/
theorem map_iff_filled_full : ∃ start kv : KvStore KvName Nat,
    ((kvstoreMachine KvName Nat).guard Filled).Trace start [.append nameHere (some 7)] kv ∧
      kv.Meets [.append nameHere (some 7)] (.change nameThere (some 8)) := by
  have initial : (kvstoreMachine KvName Nat).initial (namesStore 1) :=
    ⟨4096, 1, compareNames, fun _ => none, fun _ => none, compareNames_equality, rfl⟩
  have fresh : ∀ pair ∈ (namesStore 1).entries, ¬pair.1 ≈ nameHere := nofun
  have room : none ∈ (namesStore 1).keys := List.mem_singleton.mpr rfl
  have trace : ((kvstoreMachine KvName Nat).guard Filled).Trace (namesStore 1)
      ([] ++ [.append nameHere (some 7)])
      { namesStore 1 with keys := [some nameHere], values := [some 7] } :=
    .snoc .nil ⟨trivial, ⟨fresh, room⟩, rfl⟩
  have filled : none ∉ [some nameHere] := by simp
  have meets := (map_iff_filled initial trace).2.2 (.change nameThere (some 8)) trivial
  exact ⟨_, _, trace, meets.mpr filled⟩

/-- With one of two slots empty a removal reads the string at `NULL`. -/
theorem remove_reads_null : ∃ start kv : KvStore KvName Nat,
    (kvstoreMachine KvName Nat).initial start ∧
      (kvstoreMachine KvName Nat).Trace start [.append nameHere (some 7)] kv ∧
      kv.Legal (.remove nameHere) ∧ kv.call (.remove nameHere) = .error .nullDeref ∧
      ¬kv.Meets [.append nameHere (some 7)] (.remove nameHere) := by
  have initial : (kvstoreMachine KvName Nat).initial (namesStore 2) :=
    ⟨4096, 2, compareNames, fun _ => none, fun _ => none, compareNames_equality, rfl⟩
  have fresh : ∀ pair ∈ (namesStore 2).entries, ¬pair.1 ≈ nameHere := nofun
  have room : none ∈ (namesStore 2).keys := List.mem_cons_self
  have trace : (kvstoreMachine KvName Nat).Trace (namesStore 2)
      ([] ++ [.append nameHere (some 7)])
      { namesStore 2 with keys := [some nameHere, none], values := [some 7, none] } :=
    .snoc .nil ⟨⟨fresh, room⟩, rfl⟩
  refine ⟨_, _, initial, trace, trivial, rfl, ?_⟩
  rintro ⟨next, returned, -⟩
  cases returned

end KvStore

end Yaeos
