import Yaeos.Kvstore.Basic

/-!
# The entries of a key-value store

A slot is a key with its value, and the entries of a store are its slots with a
key.  The loops of the store are described by what they do to the slots; the ones
of `kvstore_remove` and `kvstore_change` hand every key to the comparison
function, so their specifications are about stores without an empty slot.
-/

namespace Yaeos.KvStore

variable {Key Value : Type} {kv next : KvStore Key Value} {cap index : Nat}

def slots (kv : KvStore Key Value) : List (Option Key × Option Value) := kv.keys.zip kv.values

/-- The pair in a slot that is not empty. -/
def entry (slot : Option Key × Option Value) : Option (Key × Option Value) :=
  slot.1.map fun key => (key, slot.2)

def entries (kv : KvStore Key Value) : List (Key × Option Value) := kv.slots.filterMap entry

@[simp]
theorem entry_none (value : Option Value) : entry ((none : Option Key), value) = none := rfl

@[simp]
theorem entry_some (key : Key) (value : Option Value) :
    entry (some key, value) = some (key, value) := rfl

/-- No argument of the recorded calls is `NULL`. -/
def WithoutNull (compared : List (Option Key × Option Key)) : Prop :=
  ∀ arguments ∈ compared, arguments.1.isSome ∧ arguments.2.isSome

/-- On keys, the comparison function tells whether they are equal. -/
def EqualityTest [Setoid Key] (cmpfn : KvstoreFnCmpkeys Key) : Prop :=
  ∀ lhs rhs : Key, ∃ result, cmpfn (some lhs) (some rhs) = .ok result ∧ (result = 0 ↔ lhs ≈ rhs)

/-- Both arrays have `cap` slots and the comparison function has seen keys only. -/
structure Sound [Setoid Key] (cap : Nat) (kv : KvStore Key Value) : Prop where
  capacity : kv.cap = cap
  keysLength : kv.keys.length = cap
  valuesLength : kv.values.length = cap
  equality : EqualityTest kv.cmpfn
  compared : WithoutNull kv.compared

theorem read_keys {slot : Option Key × Option Value} (read : kv.slots[index]? = some slot) :
    readSlot kv.keys index = .ok slot.1 :=
  readSlot_eq_ok.mpr (List.getElem?_zip_eq_some.mp read).1

theorem read_values {slot : Option Key × Option Value} (read : kv.slots[index]? = some slot) :
    readSlot kv.values index = .ok slot.2 :=
  readSlot_eq_ok.mpr (List.getElem?_zip_eq_some.mp read).2

theorem zip_set (keys : List (Option Key)) (values : List (Option Value)) (index : Nat)
    (key : Option Key) (value : Option Value) :
    (keys.set index key).zip (values.set index value) = (keys.zip values).set index (key, value) := by
  induction keys generalizing values index with
  | nil => simp
  | cons head rest inductionHypothesis =>
      cases values with
      | nil => simp
      | cons value' values =>
          cases index with
          | zero => rfl
          | succ index => simp [inductionHypothesis]

/-- The slots a search still has to visit, with the first of them. -/
theorem drop_eq_cons {Slot : Type} {slots rest : List Slot} {slot : Slot}
    (left : slots.drop index = slot :: rest) :
    slots[index]? = some slot ∧ slots.drop (index + 1) = rest := by
  constructor
  · rw [← Nat.add_zero index, ← List.getElem?_drop, left]
    rfl
  · rw [← List.drop_drop, left]
    rfl

theorem emptyNdx_spec (kv : KvStore Key Value) (rest : List (Option Key × Option Value))
    (left : kv.slots.drop index = rest) :
    ∃ found, kvstoreEmptyNdx kv (List.range' index rest.length) = .ok found ∧
      (found = none → ∀ slot ∈ rest, slot.1.isSome) ∧
      ∀ ndx, found = some ndx → ∃ value, kv.slots[ndx]? = some (none, value) := by
  induction rest generalizing index with
  | nil => exact ⟨none, rfl, by simp, nofun⟩
  | cons slot rest inductionHypothesis =>
      obtain ⟨lhs, value⟩ := slot
      obtain ⟨read, tail⟩ := drop_eq_cons left
      rw [List.length_cons, List.range'_succ]
      cases lhs with
      | none =>
          refine ⟨some index, by simp [kvstoreEmptyNdx, read_keys read], nofun, ?_⟩
          rintro _ ⟨⟩
          exact ⟨value, read⟩
      | some lhs =>
          obtain ⟨found, returned, full, empty⟩ := inductionHypothesis tail
          refine ⟨found, by simp [kvstoreEmptyNdx, read_keys read, returned], ?_, empty⟩
          intro missing slot member
          rcases List.mem_cons.mp member with rfl | member
          · rfl
          · exact full missing slot member

/-- The round that `kvstore_remove` and `kvstore_change` share. -/
def onEqual (key : Option Key) (change : KvStore Key Value → Nat → Outcome (KvStore Key Value))
    (kv : KvStore Key Value) (i : Nat) : Outcome (KvStore Key Value) := do
  let (kv, result) ← kv.compare (← readSlot kv.keys i) key
  if result = 0 then change kv i else .ok kv

/-- The change of `kvstore_change` to a slot. -/
def setValue (val : Option Value) (kv : KvStore Key Value) (i : Nat) :
    Outcome (KvStore Key Value) := do
  let values ← writeSlot kv.values i val
  .ok { kv with values := values }

/-- A loop that meets an empty slot hands `NULL` to the comparison function. -/
theorem compared_null {key : Key} {hole : Nat} (empty : kv.keys[hole]? = some none)
    (inside : hole < kv.cap)
    {change : KvStore Key Value → Nat → Outcome (KvStore Key Value)}
    (changes : ∀ (kv : KvStore Key Value) index next, change kv index = .ok next →
      next.compared = kv.compared ∧ ∀ other ≠ index, next.keys[other]? = kv.keys[other]?)
    (returned : (List.range kv.cap).foldlM (onEqual (some key) change) kv = .ok next) :
    ¬WithoutNull next.compared := by
  let Invariant (index : Nat) (state : KvStore Key Value) : Prop :=
    (index ≤ hole → state.keys[hole]? = some none) ∧
      (hole < index → (none, some key) ∈ state.compared)
  have base : Invariant 0 kv := ⟨fun _ => empty, nofun⟩
  have round : ∀ index < kv.cap, ∀ state next, Invariant index state →
      onEqual (some key) change state index = .ok next → Invariant (index + 1) next := by
    rintro index - state next ⟨before, after⟩ stepped
    obtain ⟨lhs, read, rest⟩ := Outcome.bind_eq_ok.mp stepped
    obtain ⟨⟨recorded, result⟩, compared, rest⟩ := Outcome.bind_eq_ok.mp rest
    obtain ⟨value, -, records⟩ := Outcome.bind_eq_ok.mp compared
    cases records
    have keeps : next.compared = (lhs, some key) :: state.compared ∧
        ∀ other ≠ index, next.keys[other]? = state.keys[other]? := by
      dsimp only at rest
      split at rest
      · exact changes _ _ _ rest
      · cases rest
        exact ⟨rfl, fun _ _ => rfl⟩
    obtain ⟨calls, others⟩ := keeps
    refine ⟨fun below => ?_, fun beyond => ?_⟩
    · rw [others hole (by omega)]
      exact before (by omega)
    · rw [calls]
      rcases Nat.lt_or_ge hole index with past | here
      · exact List.mem_cons_of_mem _ (after past)
      · obtain rfl : index = hole := by omega
        have null : lhs = none :=
          Option.some.inj ((readSlot_eq_ok.mp read).symm.trans (before (Nat.le_refl _)))
        rw [null]
        exact List.mem_cons_self
  have final := Loop.range_of_ok Invariant returned base round
  intro none
  exact absurd (none _ (final.2 inside)).1 nofun

theorem clearSlot_changes (kv : KvStore Key Value) (index : Nat) (next : KvStore Key Value)
    (returned : kv.clearSlot index = .ok next) :
    next.compared = kv.compared ∧ ∀ other ≠ index, next.keys[other]? = kv.keys[other]? := by
  obtain ⟨keys, wrote, rest⟩ := Outcome.bind_eq_ok.mp returned
  obtain ⟨values, -, rest⟩ := Outcome.bind_eq_ok.mp rest
  cases rest
  unfold writeSlot at wrote
  split at wrote
  · cases wrote
    exact ⟨rfl, fun other differs => List.getElem?_set_ne differs.symm⟩
  · cases wrote

theorem setValue_changes (val : Option Value) (kv : KvStore Key Value) (index : Nat)
    (next : KvStore Key Value) (returned : setValue val kv index = .ok next) :
    next.compared = kv.compared ∧ ∀ other ≠ index, next.keys[other]? = kv.keys[other]? := by
  obtain ⟨values, -, rest⟩ := Outcome.bind_eq_ok.mp returned
  cases rest
  exact ⟨rfl, fun _ _ => rfl⟩

/-- The entries of the slots up to an index, and the slot at it. -/
theorem entries_take_succ {slot : Option Key × Option Value} (read : kv.slots[index]? = some slot) :
    (kv.slots.take (index + 1)).filterMap entry =
      (kv.slots.take index).filterMap entry ++ (entry slot).toList := by
  rw [List.take_add_one, read, List.filterMap_append]
  cases h : entry slot <;> simp [h]

variable [Setoid Key]

theorem Sound.length_slots (sound : kv.Sound cap) : kv.slots.length = cap := by
  rw [slots, List.length_zip, sound.keysLength, sound.valuesLength, Nat.min_self]

theorem Sound.length_entries_le (sound : kv.Sound cap) : kv.entries.length ≤ cap := by
  rw [← sound.length_slots]
  exact List.length_filterMap_le ..

theorem Sound.slot_at (sound : kv.Sound cap) (below : index < cap) :
    ∃ key value, kv.slots[index]? = some (key, value) :=
  ⟨_, _, List.getElem?_eq_getElem (by rwa [sound.length_slots])⟩

theorem Sound.inside (sound : kv.Sound cap) {slot : Option Key × Option Value}
    (read : kv.slots[index]? = some slot) : index < cap := by
  have below := (List.getElem?_eq_some_iff.mp read).1
  rwa [sound.length_slots] at below

/-- A slot is written. -/
theorem Sound.write (sound : kv.Sound cap) (below : index < cap) (key : Option Key)
    (value : Option Value) :
    ∃ keys values, writeSlot kv.keys index key = .ok keys ∧
      writeSlot kv.values index value = .ok values ∧
      Sound cap { kv with keys := keys, values := values } ∧
      slots { kv with keys := keys, values := values } = kv.slots.set index (key, value) := by
  refine ⟨_, _, writeSlot_ok (by rwa [sound.keysLength]) key,
    writeSlot_ok (by rwa [sound.valuesLength]) value, ?_, zip_set ..⟩
  exact { sound with
    keysLength := by rw [List.length_set, sound.keysLength]
    valuesLength := by rw [List.length_set, sound.valuesLength] }

/-- Two keys are compared. -/
theorem Sound.compare (sound : kv.Sound cap) (lhs rhs : Key) :
    ∃ after result, kv.compare (some lhs) (some rhs) = .ok (after, result) ∧
      after = { kv with compared := after.compared } ∧ Sound cap after ∧
      (result = 0 ↔ lhs ≈ rhs) := by
  obtain ⟨result, returned, equality⟩ := sound.equality lhs rhs
  refine ⟨{ kv with compared := (some lhs, some rhs) :: kv.compared }, result, ?_, rfl, ?_,
    equality⟩
  · simp [KvStore.compare, returned]
  · refine { sound with compared := ?_ }
    intro arguments member
    rcases List.mem_cons.mp member with rfl | member
    · exact ⟨rfl, rfl⟩
    · exact sound.compared arguments member

/-- What the search finds among the slots it still has to visit. -/
def Finds (slots : List (Option Key × Option Value)) (key : Key) (found : Option (Option Value)) :
    Prop :=
  (found = none → ∀ pair ∈ slots.filterMap entry, ¬pair.1 ≈ key) ∧
  ∀ value, found = some value → ∃ pair ∈ slots.filterMap entry, pair.1 ≈ key ∧ pair.2 = value

theorem Sound.findLoop (key : Key) (rest : List (Option Key × Option Value)) {kv : KvStore Key Value}
    (sound : kv.Sound cap) {index : Nat} (left : kv.slots.drop index = rest) :
    ∃ after found, kvstoreFindLoop kv (some key) (List.range' index rest.length) =
        .ok (after, found) ∧
      after = { kv with compared := after.compared } ∧ Sound cap after ∧ Finds rest key found := by
  induction rest generalizing kv index with
  | nil => exact ⟨kv, none, rfl, rfl, sound, by simp [Finds]⟩
  | cons slot rest inductionHypothesis =>
      obtain ⟨lhs, value⟩ := slot
      obtain ⟨read, tail⟩ := drop_eq_cons left
      rw [List.length_cons, List.range'_succ]
      cases lhs with
      | none =>
          obtain ⟨after, found, returned, same, afterSound, finds⟩ :=
            inductionHypothesis sound tail
          refine ⟨after, found, ?_, same, afterSound, ?_⟩
          · simp [kvstoreFindLoop, read_keys read, returned]
          · simpa [Finds] using finds
      | some lhs =>
          obtain ⟨after, result, compared, same, afterSound, equality⟩ := sound.compare lhs key
          have keeps : after.slots = kv.slots := by rw [same]; rfl
          by_cases equal : result = 0
          · refine ⟨after, some value, ?_, same, afterSound, nofun, ?_⟩
            · have read' : readSlot after.values index = .ok value :=
                read_values (keeps ▸ read)
              simp [kvstoreFindLoop, read_keys read, compared, equal, read']
            · rintro _ ⟨⟩
              exact ⟨(lhs, value), by simp, equality.mp equal, rfl⟩
          · obtain ⟨last, found, returned, same', lastSound, finds⟩ :=
              inductionHypothesis afterSound (keeps ▸ tail)
            refine ⟨last, found, ?_, by rw [same', same], lastSound, ?_, ?_⟩
            · simp [kvstoreFindLoop, read_keys read, compared, equal, returned]
            · intro missing pair member
              have member : pair ∈ (lhs, value) :: rest.filterMap entry := member
              rcases List.mem_cons.mp member with rfl | member
              · exact fun similar => equal (equality.mpr similar)
              · exact finds.1 missing pair member
            · intro value' hit
              obtain ⟨pair, member, similar⟩ := finds.2 value' hit
              exact ⟨pair, List.mem_cons_of_mem (lhs, value) member, similar⟩

theorem Sound.find (sound : kv.Sound cap) (key : Key) :
    ∃ after found, kvstoreFind kv (some key) = .ok (after, found) ∧
      after = { kv with compared := after.compared } ∧ Sound cap after ∧
      Finds kv.slots key found := by
  obtain ⟨after, found, returned, rest⟩ :=
    sound.findLoop key kv.slots (show kv.slots.drop 0 = kv.slots from rfl)
  refine ⟨after, found, ?_, rest⟩
  rw [sound.length_slots, ← List.range_eq_range', ← sound.capacity] at returned
  simp [kvstoreFind, returned]

/-- A fresh key goes into the first empty slot. -/
theorem Sound.append (sound : kv.Sound cap) {key : Key} (val : Option Value)
    (fresh : ∀ pair ∈ kv.entries, ¬pair.1 ≈ key) (room : ∃ slot ∈ kv.slots, slot.1 = none)
    (cleared : ∀ slot ∈ kv.slots, slot.1 = none → slot.2 = none) :
    ∃ next before after, kvstoreAppend kv (some key) val = .ok next ∧ Sound cap next ∧
      kv.slots = before ++ (none, none) :: after ∧
      next.slots = before ++ (some key, val) :: after := by
  obtain ⟨looked, found, searched, same, lookedSound, finds⟩ := sound.find key
  have missing : found = none := by
    cases found with
    | none => rfl
    | some value =>
        obtain ⟨pair, member, similar, -⟩ := finds.2 value rfl
        exact absurd similar (fresh pair member)
  have keeps : looked.slots = kv.slots := by rw [same]; rfl
  obtain ⟨found', scanned, full, empty⟩ :=
    looked.emptyNdx_spec looked.slots (show looked.slots.drop 0 = looked.slots from rfl)
  rw [lookedSound.length_slots, ← List.range_eq_range', ← lookedSound.capacity] at scanned
  cases found' with
  | none =>
      obtain ⟨slot, member, hole⟩ := room
      have some := full rfl slot (keeps ▸ member)
      rw [hole] at some
      cases some
  | some ndx =>
      obtain ⟨value, read⟩ := empty ndx rfl
      have bare : value = none :=
        cleared (none, value) (keeps ▸ List.mem_of_getElem? read) rfl
      subst bare
      obtain ⟨keys, values, wroteKey, wroteValue, nextSound, written⟩ :=
        lookedSound.write (lookedSound.inside read) (some key) val
      obtain ⟨inside, atNdx⟩ := List.getElem?_eq_some_iff.mp read
      obtain ⟨before, after, split, -, changed⟩ : ∃ before after,
          looked.slots = before ++ looked.slots[ndx] :: after ∧ before.length = ndx ∧
            looked.slots.set ndx (some key, val) = before ++ (some key, val) :: after :=
        List.exists_of_set inside
      rw [atNdx] at split
      refine ⟨_, before, after, ?_, nextSound, keeps ▸ split, written.trans changed⟩
      simp [kvstoreAppend, searched, missing, scanned, read_keys read, read_values read, wroteKey,
        wroteValue]

/-- A key that is there already makes the assertion against duplicates fail. -/
theorem Sound.append_duplicate (sound : kv.Sound cap) {key : Key} (val : Option Value)
    (present : ∃ pair ∈ kv.entries, pair.1 ≈ key) :
    kvstoreAppend kv (some key) val = .error .kassert := by
  obtain ⟨looked, found, searched, -, -, finds⟩ := sound.find key
  obtain ⟨pair, member, similar⟩ := present
  cases found with
  | none => exact absurd similar (finds.1 rfl pair member)
  | some value => simp [kvstoreAppend, searched, kassert]

/-- Without an empty slot the search for one fails its assertion. -/
theorem Sound.append_full (sound : kv.Sound cap) {key : Key} (val : Option Value)
    (full : ∀ slot ∈ kv.slots, slot.1.isSome) :
    kvstoreAppend kv (some key) val = .error .kassert := by
  obtain ⟨looked, found, searched, same, lookedSound, -⟩ := sound.find key
  have keeps : looked.slots = kv.slots := by rw [same]; rfl
  obtain ⟨hole, scanned, -, empty⟩ :=
    looked.emptyNdx_spec looked.slots (show looked.slots.drop 0 = looked.slots from rfl)
  rw [lookedSound.length_slots, ← List.range_eq_range', ← lookedSound.capacity] at scanned
  have none : hole = none := by
    cases hole with
    | none => rfl
    | some ndx =>
        obtain ⟨value, read⟩ := empty ndx rfl
        have present := full _ (keeps ▸ List.mem_of_getElem? read)
        cases present
  cases found with
  | none => simp [kvstoreAppend, searched, scanned, none]
  | some value => simp [kvstoreAppend, searched, kassert]

open Classical in
/-- A slot whose key equals the given one is changed. -/
noncomputable def changeEqual (key : Key)
    (change : Option Key × Option Value → Option Key × Option Value)
    (slot : Option Key × Option Value) : Option Key × Option Value :=
  if ∃ present, slot.1 = some present ∧ present ≈ key then change slot else slot

/-- Without an empty slot the loop changes the slots with an equal key. -/
theorem Sound.onEqual (sound : kv.Sound cap) (full : ∀ slot ∈ kv.slots, slot.1.isSome) (key : Key)
    {change : KvStore Key Value → Nat → Outcome (KvStore Key Value)}
    {effect : Option Key × Option Value → Option Key × Option Value}
    (changes : ∀ (kv : KvStore Key Value) index slot, Sound cap kv → kv.slots[index]? = some slot →
      ∃ next, change kv index = .ok next ∧ Sound cap next ∧
        next.slots = kv.slots.set index (effect slot)) :
    ∃ next, (List.range kv.cap).foldlM (KvStore.onEqual (some key) change) kv = .ok next ∧
      Sound cap next ∧ next.slots = kv.slots.map (changeEqual key effect) := by
  have round : ∀ index slot (state : KvStore Key Value), slot ∈ kv.slots → Sound cap state →
      state.slots[index]? = some slot →
      ∃ next, KvStore.onEqual (some key) change state index = .ok next ∧
        next.slots = state.slots.set index (changeEqual key effect slot) ∧ Sound cap next := by
    rintro index ⟨present, value⟩ state member stateSound read
    obtain ⟨present, rfl⟩ := Option.isSome_iff_exists.mp (full _ member)
    obtain ⟨after, result, compared, same, afterSound, equality⟩ := stateSound.compare present key
    have keeps : after.slots = state.slots := by rw [same]; rfl
    by_cases equal : result = 0
    · obtain ⟨next, changed, nextSound, written⟩ :=
        changes after index _ afterSound (keeps ▸ read)
      refine ⟨next, ?_, ?_, nextSound⟩
      · simp [KvStore.onEqual, read_keys read, compared, equal, changed]
      · rw [written, keeps, changeEqual, if_pos ⟨present, rfl, equality.mp equal⟩]
    · refine ⟨after, ?_, ?_, afterSound⟩
      · simp [KvStore.onEqual, read_keys read, compared, equal]
      · have differs : ¬∃ other, some present = some other ∧ other ≈ key := by
          rintro ⟨_, ⟨⟩, similar⟩
          exact equal (equality.mpr similar)
        obtain ⟨inside, atIndex⟩ := List.getElem?_eq_some_iff.mp read
        rw [changeEqual, if_neg differs, keeps, ← atIndex, List.set_getElem_self]
  obtain ⟨next, returned, mapped, nextSound⟩ :=
    Loop.map_slots slots (changeEqual key effect) (Sound cap) sound round
  rw [sound.length_slots, ← sound.capacity] at returned
  exact ⟨next, returned, nextSound, mapped⟩

theorem Sound.length (sound : kv.Sound cap) : kvstoreLength kv = .ok kv.entries.length := by
  let Invariant (index len : Nat) : Prop := len = ((kv.slots.take index).filterMap entry).length
  have base : Invariant 0 0 := rfl
  have round : ∀ index < cap, ∀ len, Invariant index len → ∃ next,
      (do if (← readSlot kv.keys index).isSome then .ok (len + 1) else .ok len : Outcome Nat) =
        .ok next ∧ Invariant (index + 1) next := by
    rintro index below len rfl
    obtain ⟨key, value, read⟩ := sound.slot_at below
    refine ⟨_, ?_, rfl⟩
    rw [entries_take_succ read, read_keys read]
    cases key <;> simp
  obtain ⟨len, returned, counted⟩ := Loop.range_ok Invariant base round
  have whole : kv.slots.take cap = kv.slots := List.take_of_length_le sound.length_slots.le
  have counted : len = ((kv.slots.take cap).filterMap entry).length := counted
  rw [whole] at counted
  subst counted
  rw [kvstoreLength, sound.capacity]
  exact returned

theorem Sound.iter (sound : kv.Sound cap) : kvstoreIter kv = .ok kv.entries := by
  let Invariant (index : Nat) (called : List (Key × Option Value)) : Prop :=
    called = (kv.slots.take index).filterMap entry
  have base : Invariant 0 [] := rfl
  have round : ∀ index < cap, ∀ called, Invariant index called → ∃ next,
      kvstoreIterSlot kv called index = .ok next ∧ Invariant (index + 1) next := by
    rintro index below called rfl
    obtain ⟨key, value, read⟩ := sound.slot_at below
    refine ⟨_, ?_, rfl⟩
    rw [kvstoreIterSlot, entries_take_succ read, read_keys read, read_values read]
    cases key <;> simp
  obtain ⟨called, returned, listed⟩ := Loop.range_ok Invariant base round
  have whole : kv.slots.take cap = kv.slots := List.take_of_length_le sound.length_slots.le
  have listed : called = (kv.slots.take cap).filterMap entry := listed
  rw [whole] at listed
  subst listed
  rwa [← sound.capacity] at returned

end Yaeos.KvStore
