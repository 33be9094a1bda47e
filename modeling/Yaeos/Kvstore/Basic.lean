import Yaeos.Linear.Basic
import Yaeos.Machine.Slots

/-!
# Key-value stores (`lib/ds/kvstore.c`)

Keys and values are pointers, with `none` for `NULL`; a `NULL` key marks an empty
slot.  The comparison function belongs to the caller: it may do anything with the
arguments it is called with, and `compared` records them.
-/

namespace Yaeos

variable {Key Value : Type}

/-- `kvstore_fn_cmpkeys_t`. -/
abbrev KvstoreFnCmpkeys (Key : Type) := Option Key → Option Key → Outcome Int

/-- `struct kvstore`. -/
structure KvStore (Key Value : Type) where
  keys : List (Option Key)
  cap : Nat
  values : List (Option Value)
  cmpfn : KvstoreFnCmpkeys Key
  /-- The arguments of the calls of `cmpfn`, the last call first. -/
  compared : List (Option Key × Option Key) := []

/-- `sizeof(struct kvstore)`. -/
def sizeofKvstore : Nat := 16

/-- The size of an entry of `keys` or `values`. -/
def sizeofKvstoreSlot : Nat := 4

def kvstorePredictReqmem (cap : Nat) : Nat :=
  let space := 0
  let space := wrap (space + sizeofKvstore)
  let space := wrap (space + wrap (cap * sizeofKvstoreSlot))
  wrap (space + wrap (cap * sizeofKvstoreSlot))

namespace KvStore

/-- `keys[i] = NULL; values[i] = NULL;` -/
def clearSlot (kv : KvStore Key Value) (i : Nat) : Outcome (KvStore Key Value) := do
  let keys ← writeSlot kv.keys i none
  let values ← writeSlot kv.values i none
  .ok { kv with keys := keys, values := values }

/-- `kv->cmpfn(lhs, rhs)`. -/
def compare (kv : KvStore Key Value) (lhs rhs : Option Key) :
    Outcome (KvStore Key Value × Int) := do
  let result ← kv.cmpfn lhs rhs
  .ok ({ kv with compared := (lhs, rhs) :: kv.compared }, result)

end KvStore

/-- The arrays have as many slots as were allocated for them; `oldKeys` and
`oldValues` are what the memory held before. -/
def kvstoreCreate (mem cap : Nat) (cmpfn : Option (KvstoreFnCmpkeys Key))
    (oldKeys : Nat → Option Key) (oldValues : Nat → Option Value) :
    Outcome (Option (KvStore Key Value)) :=
  match cmpfn with
  | none => .error .kassert
  | some cmpfn => do
      let alloc ← linearAllocInit mem (kvstorePredictReqmem cap)
      let (alloc, kv) := linearAllocAlloc alloc sizeofKvstore
      if kv = none then .ok none
      else
        let space := wrap (cap * sizeofKvstoreSlot)
        let (alloc, keys) := linearAllocAlloc alloc space
        if keys = none then .ok none
        else
          let (alloc, values) := linearAllocAlloc alloc space
          if values = none then .ok none
          else
            let slots := List.range (space / sizeofKvstoreSlot)
            let kv : KvStore Key Value :=
              { keys := slots.map oldKeys, cap := cap, values := slots.map oldValues,
                cmpfn := cmpfn }
            let kv ← (List.range cap).foldlM KvStore.clearSlot kv
            kassert (linearAllocOccupied alloc = kvstorePredictReqmem cap)
            .ok (some kv)

def kvstoreCapacity (kv : KvStore Key Value) : Nat := kv.cap

/-- A round of `kvstore_iter`, with the calls of `itfn` before it. -/
def kvstoreIterSlot (kv : KvStore Key Value) (called : List (Key × Option Value)) (i : Nat) :
    Outcome (List (Key × Option Value)) := do
  match ← readSlot kv.keys i with
  | none => .ok called
  | some key => .ok (called ++ [(key, ← readSlot kv.values i)])

/-- The calls of `itfn`, in order. -/
def kvstoreIter (kv : KvStore Key Value) : Outcome (List (Key × Option Value)) :=
  (List.range kv.cap).foldlM (kvstoreIterSlot kv) []

def kvstoreFindLoop (kv : KvStore Key Value) (key : Option Key) :
    List Nat → Outcome (KvStore Key Value × Option (Option Value))
  | [] => .ok (kv, none)
  | i :: rest => do
      let lhs ← readSlot kv.keys i
      if lhs.isNone then kvstoreFindLoop kv key rest
      else
        let (kv, result) ← kv.compare lhs key
        if result = 0 then .ok (kv, some (← readSlot kv.values i))
        else kvstoreFindLoop kv key rest

/-- The value that `result_val` receives, if the key is found. -/
def kvstoreFind (kv : KvStore Key Value) (key : Option Key) :
    Outcome (KvStore Key Value × Option (Option Value)) := do
  kassert key.isSome
  kvstoreFindLoop kv key (List.range kv.cap)

/-- The search of `kvstore_append` for an empty key. -/
def kvstoreEmptyNdx (kv : KvStore Key Value) : List Nat → Outcome (Option Nat)
  | [] => .ok none
  | ndx :: rest => do
      if (← readSlot kv.keys ndx).isNone then .ok (some ndx) else kvstoreEmptyNdx kv rest

def kvstoreAppend (kv : KvStore Key Value) (key : Option Key) (val : Option Value) :
    Outcome (KvStore Key Value) := do
  kassert key.isSome
  let (kv, presentKey) ← kvstoreFind kv key
  kassert presentKey.isNone
  match ← kvstoreEmptyNdx kv (List.range kv.cap) with
  | none => .error .kassert
  | some ndx =>
      kassert (← readSlot kv.keys ndx).isNone
      kassert (← readSlot kv.values ndx).isNone
      let keys ← writeSlot kv.keys ndx key
      let values ← writeSlot kv.values ndx val
      .ok { kv with keys := keys, values := values }

def kvstoreRemove (kv : KvStore Key Value) (key : Option Key) : Outcome (KvStore Key Value) := do
  kassert key.isSome
  (List.range kv.cap).foldlM (fun kv i => do
    let (kv, result) ← kv.compare (← readSlot kv.keys i) key
    if result = 0 then kv.clearSlot i else .ok kv) kv

def kvstoreChange (kv : KvStore Key Value) (key : Option Key) (val : Option Value) :
    Outcome (KvStore Key Value) := do
  kassert key.isSome
  (List.range kv.cap).foldlM (fun kv i => do
    let (kv, result) ← kv.compare (← readSlot kv.keys i) key
    if result = 0 then
      let values ← writeSlot kv.values i val
      .ok { kv with values := values }
    else .ok kv) kv

def kvstoreLength (kv : KvStore Key Value) : Outcome Nat :=
  (List.range kv.cap).foldlM (fun len i => do
    if (← readSlot kv.keys i).isSome then .ok (len + 1) else .ok len) 0

end Yaeos
