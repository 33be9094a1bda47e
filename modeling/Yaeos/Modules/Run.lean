import Yaeos.Console.Run

/-!
# Loading the modules (`kernel/modules.c`)

The linker collects pointers to the modules in a table.  `modules_init` puts those that are
available on a list, and `modules_load_available` goes over it and calls their `load`, for
which the rest of the kernel is one state.
-/

namespace Yaeos

/-- `struct module_fns` without `unload`, which nothing calls. -/
structure ModuleFns (State : Type) where
  available : Option (State → Bool)
  load : Option (State → Outcome State)

namespace ModuleFns

variable {State : Type}

def isAvailable (fns : ModuleFns State) (state : State) : Bool :=
  match fns.available with
  | some available => available state
  | none => false

def loads (fns : ModuleFns State) (state : State) : Outcome State :=
  match fns.load with
  | some load => load state
  | none => .ok state

end ModuleFns

/-- The nodes of the two lists. -/
inductive ModuleNode (Id : Type) where
  | inactiveModules
  | loadedModules
  | stateList (m : Id)
  deriving DecidableEq

structure Modules (Id State : Type) where
  links : SlistLinks (ModuleNode Id)
  state : State

namespace Modules

variable {Id State : Type} [DecidableEq Id]

def registerModule (fns : Id → ModuleFns State) (m : Option Id) (modules : Modules Id State) :
    Outcome (Modules Id State) := do
  kassert (m.isSome = true)
  let m ← deref m
  kassert ((fns m).isAvailable modules.state = true)
  let links := modules.links.init (.stateList m)
  .ok { modules with links := links.insert .inactiveModules (.stateList m) }

omit [DecidableEq Id] in
/-- `ELFLIST_FOREACH` over the pointers of the table. -/
def modulesIterateOverAvailable (fns : Id → ModuleFns State) (table : List Id)
    (fn : Option Id → Modules Id State → Outcome (Modules Id State))
    (modules : Modules Id State) : Outcome (Modules Id State) :=
  table.foldlM (fun modules m =>
    if (fns m).isAvailable modules.state then fn (some m) modules else .ok modules) modules

def modulesInit (fns : Id → ModuleFns State) (table : List Id) (modules : Modules Id State) :
    Outcome (Modules Id State) :=
  let links := (modules.links.init .inactiveModules).init .loadedModules
  modulesIterateOverAvailable fns table (registerModule fns) { modules with links := links }

/-- The module is the structure around the node; there is none around a head. -/
def loadNode (fns : Id → ModuleFns State) : ModuleNode Id → State → Outcome State
  | .stateList m, state => (fns m).loads state
  | _, _ => .error .outOfBounds

def modulesLoadAvailable (fns : Id → ModuleFns State) (rounds : Nat)
    (modules : Modules Id State) : Outcome (Modules Id State) := do
  let state ← modules.links.forEach (loadNode fns) rounds (modules.links .inactiveModules)
    modules.state
  .ok { modules with state := state }

/-- The last calls of `kernel_init` in front of its test. -/
def loadModules (fns : Id → ModuleFns State) (table : List Id) (rounds : Nat)
    (modules : Modules Id State) : Outcome (Modules Id State) := do
  let modules ← modulesInit fns table modules
  modulesLoadAvailable fns rounds modules

variable {fns : Id → ModuleFns State} {table : List Id} {modules final : Modules Id State}
  {state : State}

/-- The modules of the table that a state of the kernel has use for. -/
def availableIn (fns : Id → ModuleFns State) (table : List Id) (state : State) : List Id :=
  table.filter fun m => (fns m).isAvailable state

omit [DecidableEq Id] in
theorem stateList_ne (m : Id) : ModuleNode.stateList m ≠ .inactiveModules := by
  intro same
  cases same

theorem registerModule_eq {m : Id} (available : (fns m).isAvailable modules.state = true) :
    registerModule fns (some m) modules =
      .ok { modules with links := modules.links.insert .inactiveModules (.stateList m) } := by
  simp [registerModule, deref, available, SlistLinks.insert_init (stateList_ne m)]

/-- The available modules go in front of those that are on the list. -/
theorem iterate_register {known : List Id}
    (holds : modules.links.Inserted .inactiveModules (known.map .stateList)) :
    ∃ ready, modulesIterateOverAvailable fns table (registerModule fns) modules = .ok ready ∧
      ready.state = modules.state ∧ ready.links.Inserted .inactiveModules
        (((availableIn fns table modules.state).reverse ++ known).map .stateList) := by
  induction table generalizing modules known with
  | nil => exact ⟨modules, rfl, rfl, holds⟩
  | cons m rest inductionHypothesis =>
      rw [modulesIterateOverAvailable, List.foldlM_cons]
      cases available : (fns m).isAvailable modules.state with
      | false =>
          obtain ⟨ready, returned, sameState, inserted⟩ := inductionHypothesis holds
          refine ⟨ready, returned, sameState, ?_⟩
          rw [availableIn, List.filter_cons_of_neg (by rw [available]; decide)]
          exact inserted
      | true =>
          let grown : Modules Id State :=
            { modules with links := modules.links.insert .inactiveModules (.stateList m) }
          have onList : grown.links.Inserted .inactiveModules ((m :: known).map .stateList) :=
            holds.insert (stateList_ne m)
          obtain ⟨ready, returned, sameState, inserted⟩ := inductionHypothesis onList
          rw [if_pos rfl, registerModule_eq available, Outcome.ok_bind]
          refine ⟨ready, returned, sameState, ?_⟩
          rw [availableIn, List.filter_cons_of_pos (by simpa using available), List.reverse_cons,
            List.append_assoc]
          exact inserted

theorem modulesInit_eq (fns : Id → ModuleFns State) (table : List Id)
    (modules : Modules Id State) : ∃ ready, modulesInit fns table modules = .ok ready ∧
    ready.state = modules.state ∧ ready.links.Inserted .inactiveModules
      ((availableIn fns table modules.state).reverse.map .stateList) := by
  have ended : (modules.links.init .inactiveModules).init .loadedModules .inactiveModules =
      none := by
    have differs : (ModuleNode.inactiveModules : ModuleNode Id) ≠ .loadedModules := by
      intro same
      cases same
    rw [SlistLinks.init_of_ne differs, SlistLinks.init_self]
  let empty : Modules Id State :=
    { modules with links := (modules.links.init .inactiveModules).init .loadedModules }
  have onList : empty.links.Inserted .inactiveModules (([] : List Id).map .stateList) :=
    SlistLinks.inserted_nil ended
  obtain ⟨ready, returned, sameState, inserted⟩ := iterate_register onList
  rw [List.append_nil] at inserted
  exact ⟨ready, returned, sameState, inserted⟩

omit [DecidableEq Id] in
theorem stateList_injective : Function.Injective (ModuleNode.stateList : Id → ModuleNode Id) := by
  intro m other same
  cases same
  rfl

/-- Loading comes to its end if and only if no available module stands in the table twice and
each of them loads; they are loaded once each, the last one of the table first. -/
theorem loadModules_iff :
    (∃ rounds final, loadModules fns table rounds modules = .ok final ∧ final.state = state) ↔
      (availableIn fns table modules.state).Nodup ∧
        (availableIn fns table modules.state).reverse.foldlM
          (fun state m => (fns m).loads state) modules.state = .ok state := by
  obtain ⟨ready, returned, sameState, inserted⟩ := modulesInit_eq fns table modules
  have walked : (∃ rounds, ready.links.forEach (loadNode fns) rounds
      (ready.links .inactiveModules) ready.state = .ok state) ↔ _ := inserted.forEach_iff
  rw [List.nodup_map_iff stateList_injective, List.nodup_reverse, List.foldlM_map,
    sameState] at walked
  refine Iff.trans ?_ walked
  constructor
  · rintro ⟨rounds, final, loaded, rfl⟩
    rw [loadModules, returned, Outcome.ok_bind] at loaded
    obtain ⟨after, walk, same⟩ := Outcome.bind_eq_ok.mp loaded
    cases same
    exact ⟨rounds, sameState ▸ walk⟩
  · rintro ⟨rounds, walk⟩
    refine ⟨rounds, { ready with state := state }, ?_, rfl⟩
    rw [loadModules, returned, Outcome.ok_bind, modulesLoadAvailable, sameState, walk]
    rfl

section Consoles

variable {Name : Type} {Data : Name → Type} [DecidableEq Name]
  {fns : Id → ModuleFns (Consoles Name Data)}
  {modules final : Modules Id (Consoles Name Data)} {consoles next : Consoles Name Data}
  {consoleOf : Id → Name} {list : List Id} {known : List Name} {ops : ∀ c, ConsoleOps (Data c)}
  {rounds : Nat} {action : ConsoleCall Name}

/-- `load` registers the console of the module, whatever else it does to its data. -/
def RegistersConsole (fns : ModuleFns (Consoles Name Data)) (c : Name) : Prop :=
  ∀ consoles after, fns.loads consoles = .ok after →
    after.links = consoles.links.insert none (some c)

omit [DecidableEq Id] in
theorem loads_registered (registers : ∀ m ∈ list, RegistersConsole (fns m) (consoleOf m))
    (holds : consoles.Holds known)
    (loaded : list.foldlM (fun consoles m => (fns m).loads consoles) consoles = .ok next) :
    next.Holds (list.reverse.map consoleOf ++ known) := by
  induction list generalizing consoles known with
  | nil =>
      cases loaded
      exact holds
  | cons m rest inductionHypothesis =>
      obtain ⟨here, behind⟩ := List.forall_mem_cons.mp registers
      rw [List.foldlM_cons] at loaded
      obtain ⟨after, first, loaded⟩ := Outcome.bind_eq_ok.mp loaded
      have grown : after.Holds (consoleOf m :: known) := by
        rw [Consoles.Holds, here consoles after first]
        exact SlistLinks.Inserted.insert holds (Option.some_ne_none (consoleOf m))
      have all := inductionHypothesis behind grown loaded
      rw [List.reverse_cons, List.map_append, List.append_assoc]
      exact all

/-- Modules that are always available and do nothing but register their console. -/
def plainModule (m : Bool) : ModuleFns (Consoles Bool fun _ => List Nat) where
  available := some fun _ => true
  load := some fun consoles => consoles.consoleRegister (some m)

theorem plainModule_registers (m : Bool) : RegistersConsole (plainModule m) m := by
  intro consoles after loaded
  obtain ⟨new, same, rfl⟩ := Consoles.consoleRegister_eq_ok.mp loaded
  cases same
  rfl

def plainModules : Modules Bool (Consoles Bool fun _ => List Nat) where
  links _ := none
  state := Consoles.recorders

theorem plainModules_load : ∃ final : Modules Bool (Consoles Bool fun _ => List Nat),
    loadModules plainModule [false, true] 2 plainModules = .ok final ∧
      final.state = Consoles.twoRecorders true false := by
  refine ⟨_, rfl, rfl⟩

/-- Once the modules are loaded, each message gets to the consoles of all of them that are
available, in the order of the table, and to no other. -/
theorem loaded_message_iff (initial : (Consoles.consoleMachine ops).initial modules.state)
    (registers : ∀ m ∈ availableIn fns table modules.state,
      RegistersConsole (fns m) (consoleOf m))
    (apart : Set.InjOn consoleOf { m | m ∈ availableIn fns table modules.state })
    (loaded : loadModules fns table rounds modules = .ok final) (isMessage : action.IsMessage) :
    (Consoles.consoleMachine ops).step final.state action next ↔
      next.links = final.state.links ∧
        (∀ c ∈ (availableIn fns table modules.state).map consoleOf,
          action.deliver (ops c) (final.state.data c) = .ok (next.data c)) ∧
        ∀ c ∉ (availableIn fns table modules.state).map consoleOf,
          next.data c = final.state.data c := by
  obtain ⟨nodup, folded⟩ := loadModules_iff.mp ⟨rounds, final, loaded, rfl⟩
  have none : modules.state.Holds [] := Consoles.holds_of_trace initial .nil
  have holds := loads_registered
    (fun m member => registers m (List.mem_reverse.mp member)) none folded
  rw [List.reverse_reverse, List.append_nil] at holds
  rw [holds.message isMessage, and_iff_right (List.Nodup.map_on ?_ nodup)]
  exact fun m member other otherMember same => apart member otherMember same

/-- Two modules, whose consoles are then told `"ok"`. -/
theorem loaded_message_iff_plain :
    (Consoles.consoleMachine Consoles.recorder).step (Consoles.twoRecorders true false)
      (.write [111, 107, 10] 2)
      { Consoles.twoRecorders true false with data := fun _ => [111, 107] } := by
  have isWrite : (ConsoleCall.write [111, 107, 10] 2 : ConsoleCall Bool).IsMessage := trivial
  obtain ⟨final, loaded, same⟩ := plainModules_load
  rw [← same]
  refine (loaded_message_iff ⟨_, rfl⟩ (fun m _ => plainModule_registers m)
    (fun _ _ _ _ same => same) loaded isWrite).mpr ⟨rfl, ?_, ?_⟩
  · intro c member
    rw [same]
    rfl
  · intro c absent
    exact absurd (by cases c <;> decide) absent

end Consoles

end Modules

end Yaeos
