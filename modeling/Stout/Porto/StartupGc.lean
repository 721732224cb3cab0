import Stout.Isolate.MtnRuns

/-! # Garbage collection at start-up

The collection that `waitLoop` of a porto box makes once, beside the spawns that the
box may already serve: the containers are listed, then the used allocations, then the
state and the address of each listed container are read, and the used allocations of
the box that no address stands for are freed. The calls of porto are atomic, and so
are the transactions on the pool; everything may happen between two of them.
-/
namespace Stout.Porto.StartupGc
open Std (ExtTreeMap)
open Mtn

/-- The states of a porto container that the source tells apart. -/
inductive ContainerState where
  | stopped
  | starting
  | running
  | dead
  | metaContainer
  | other
deriving DecidableEq, Repr

structure PortoContainer where
  state : ContainerState
  ip : String
deriving DecidableEq, Repr

/-- How far a `Spawn` is: before `Create`, `UseAlloc`, `SetProperty` of the address or
`Start`; after `Start`, whatever it returned, with its `Cleanup` to come; before the
`Destroy` of its container, with its allocation if it never was cleaned up; or done. -/
inductive Progress where
  | creating
  | allocating
  | settingIp (a : Allocation)
  | created (a : Allocation)
  | started (a : Allocation)
  | destroying (a : Option Allocation)
  | returned
deriving DecidableEq, Repr

structure Spawn where
  name : String
  netId : String
  box : String
  progress : Progress
deriving DecidableEq, Repr

/-- What a spawn has from `UseAlloc` and not given back. -/
def Spawn.allocation (sp : Spawn) : Option Allocation :=
  match sp.progress with
  | .settingIp a | .created a | .started a => some a
  | .destroying a => a
  | _ => none

/-- Where the collection is. While it looks at the containers it has the names left,
the addresses found and the allocations listed. -/
inductive Gc where
  | start
  | listed (names : List String)
  | inspecting (names ips : List String) (used : List Allocation)
  | destroying (name : String) (names ips : List String) (used : List Allocation)
  | readingIp (name : String) (names ips : List String) (used : List Allocation)
  | freeing (rest : List Allocation)
  | finished
deriving DecidableEq, Repr

structure Box where
  name : String
  metaName : String
deriving DecidableEq, Repr

structure State where
  db : Db
  porto : ExtTreeMap String PortoContainer compare
  spawns : List Spawn
  gc : Gc
  /-- who held an allocation of the box when the used allocations were listed -/
  watched : List (String × Allocation)

def initial (db : Db) (porto : ExtTreeMap String PortoContainer compare) : State := ⟨db,porto,[],.start,[]⟩

inductive Label where
  | spawn (name netId box : String)
  | create (i : ℕ) (ok : Bool)
  | useAlloc (i : ℕ) (env : Env)
  | setIp (i : ℕ) (ok : Bool)
  | start (i : ℕ) (ok : Bool)
  | cleanup (i : ℕ) (env : Env)
  | destroy (i : ℕ)
  | bindAllocs (netId : String) (env : Env)
  | porto (name : String) (c : Option PortoContainer)
  | list (ok : Bool)
  | usedAllocations (env : Env)
  | getState (ok : Bool)
  | destroyListed
  | getIp (ok : Bool)
  | compareIps
  | unuseAlloc (env : Env)

/-! ## Spawns -/

def State.put (s : State) (i : ℕ) (sp : Spawn) (p : Progress) : State :=
  { s with spawns := s.spawns.set i { sp with progress := p } }

def State.create (s : State) (i : ℕ) (ok : Bool) : Option State := do
  let sp ← s.spawns[i]?
  match sp.progress with
  | .creating =>
    if ok && !s.porto.contains sp.name then
      some { s.put i sp .allocating with porto := s.porto.insert sp.name ⟨.stopped,""⟩ }
    else some (s.put i sp .returned)
  | _ => none

def State.useAlloc (cfg : MtnCfg) (s : State) (i : ℕ) (env : Env) : Option State := do
  let sp ← s.spawns[i]?
  match sp.progress with
  | .allocating =>
    match Mtn.useAlloc cfg sp.netId sp.box ⟨s.db,env⟩ with
    | (.ok a,t) => some { s.put i sp (.settingIp a) with db := t.db }
    | (_,t) => some { s.put i sp (.destroying none) with db := t.db }
  | _ => none

/-- The answer of porto about a container, none if the call fails. -/
def State.ask (s : State) (name : String) (ok : Bool) : Option PortoContainer := if ok then s.porto[name]? else none

def State.setIp (s : State) (i : ℕ) (ok : Bool) : Option State := do
  let sp ← s.spawns[i]?
  match sp.progress with
  | .settingIp a =>
    match s.ask sp.name ok with
    | some c => some { s.put i sp (.created a) with porto := s.porto.insert sp.name { c with ip := a.ip } }
    | none => some (s.put i sp (.destroying (some a)))
  | _ => none

def State.start (s : State) (i : ℕ) (ok : Bool) : Option State := do
  let sp ← s.spawns[i]?
  match sp.progress with
  | .created a =>
    match s.ask sp.name ok with
    | some c => some { s.put i sp (.started a) with porto := s.porto.insert sp.name { c with state := .running } }
    | none => some (s.put i sp (.started a))
  | _ => none

def State.cleanup (s : State) (i : ℕ) (env : Env) : Option State := do
  let sp ← s.spawns[i]?
  match sp.progress with
  | .started a => some { s.put i sp (.destroying none) with db := (Mtn.unuseAlloc sp.netId a.id ⟨s.db,env⟩).2.db }
  | _ => none

def State.destroy (s : State) (i : ℕ) : Option State := do
  let sp ← s.spawns[i]?
  match sp.progress with
  | .destroying _ => some { s.put i sp .returned with porto := s.porto.erase sp.name }
  | _ => none

/-! ## The collection -/

/-- A failed `List` is only logged. -/
def State.list (s : State) (ok : Bool) : Option State :=
  match s.gc with
  | .start => some { s with gc := .listed (if ok then s.porto.keys else []) }
  | _ => none

def State.holders (b : Box) (s : State) : List (String × Allocation) :=
  s.spawns.filterMap fun sp => if sp.box = b.name then sp.allocation.map (fun a => (sp.name,a)) else none

def State.usedAllocations (cfg : MtnCfg) (b : Box) (s : State) (env : Env) : Option State :=
  match s.gc with
  | .listed names =>
    match Mtn.usedAllocations cfg ⟨s.db,env⟩ with
    | (.ok (used,_),t) => some { s with db := t.db, gc := .inspecting names [] used, watched := s.holders b }
    | (_,t) => some { s with db := t.db, gc := .finished }
  | _ => none

/-- What follows from the state of a container; a state that cannot be read is none of
those named. -/
def inspect (b : Box) (name : String) (names ips : List String) (used : List Allocation) :
    Option ContainerState → Gc
  | some .dead => .destroying name names ips used
  | some .stopped => if name ≠ b.metaName then .destroying name names ips used else .inspecting names ips used
  | some .running | some .starting => .readingIp name names ips used
  | some .metaContainer | some .other | none => .inspecting names ips used

def State.getState (b : Box) (s : State) (ok : Bool) : Option State :=
  match s.gc with
  | .inspecting (name :: names) ips used =>
    some { s with gc := inspect b name names ips used ((s.ask name ok).map PortoContainer.state) }
  | _ => none

def State.destroyListed (s : State) : Option State :=
  match s.gc with
  | .destroying name names ips used => some { s with porto := s.porto.erase name, gc := .inspecting names ips used }
  | _ => none

def State.getIp (s : State) (ok : Bool) : Option State :=
  match s.gc with
  | .readingIp name names ips used =>
    let containerIp := ((s.ask name ok).map PortoContainer.ip).getD ""
    some { s with gc := .inspecting names (if 2 < containerIp.utf8ByteSize then ips ++ [containerIp] else ips) used }
  | _ => none

/-- The listed allocations whose address was found are dropped. -/
def State.compareIps (s : State) : Option State :=
  match s.gc with
  | .inspecting [] ips used => some { s with gc := .freeing (used.filter fun a => !ips.contains a.ip) }
  | _ => none

def State.unuseAlloc (b : Box) (s : State) (env : Env) : Option State :=
  match s.gc with
  | .freeing [] => some { s with gc := .finished }
  | .freeing (a :: rest) =>
    if a.box = b.name then
      some { s with db := (Mtn.unuseAlloc a.netId a.id ⟨s.db,env⟩).2.db, gc := .freeing rest }
    else some { s with gc := .freeing rest }
  | _ => none

/-- One call. Porto has other clients, and containers die. -/
def step (cfg : MtnCfg) (b : Box) (s : State) : Label → Option State
  | .spawn name netId box => some { s with spawns := s.spawns ++ [⟨name,netId,box,.creating⟩] }
  | .create i ok => s.create i ok
  | .useAlloc i env => s.useAlloc cfg i env
  | .setIp i ok => s.setIp i ok
  | .start i ok => s.start i ok
  | .cleanup i env => s.cleanup i env
  | .destroy i => s.destroy i
  | .bindAllocs netId env => some { s with db := (Mtn.bindAllocs cfg netId ⟨s.db,env⟩).2.db }
  | .porto name c => some { s with porto := s.porto.alter name fun _ => c }
  | .list ok => s.list ok
  | .usedAllocations env => s.usedAllocations cfg b env
  | .getState ok => s.getState b ok
  | .destroyListed => s.destroyListed
  | .getIp ok => s.getIp ok
  | .compareIps => s.compareIps
  | .unuseAlloc env => s.unuseAlloc b env

/-- The names listed, as long as nothing else has been asked. -/
def Gc.names? : Gc → Option (List String)
  | .listed names => some names
  | _ => none

def Gc.inspected? : Gc → Option String
  | .inspecting (name :: _) _ _ => some name
  | _ => none

def Gc.reading? : Gc → Option String
  | .readingIp name _ _ _ => some name
  | _ => none

/-- The collection sees every allocation in use. When the used allocations are listed,
those listed are marked used and each one that a spawn of the box holds belongs to a
container that was listed; when that container is looked at, it is found running or
starting, and with the address of the allocation. The first two cases are the
assumption on the allocator. -/
def Seen (cfg : MtnCfg) (b : Box) (s : State) : Label → Prop
  | .useAlloc i env => ∀ sp ∈ s.spawns[i]?, FreshFor s.db sp.netId env
  | .bindAllocs netId env => FreshFor s.db netId env
  | .usedAllocations env =>
    (∀ r ∈ (Mtn.usedAllocations cfg ⟨s.db,env⟩).1.value?, ∀ a ∈ r.1, a.used = true) ∧
      ∀ names ∈ s.gc.names?, ∀ h ∈ s.holders b, h.1 ∈ names
  | .getState ok => ∀ name ∈ s.gc.inspected?, ∀ h ∈ s.watched, h.1 = name →
      ∃ c ∈ s.ask name ok, c.state = .running ∨ c.state = .starting
  | .getIp ok => ∀ name ∈ s.gc.reading?, ∀ h ∈ s.watched, h.1 = name →
      2 < h.2.ip.utf8ByteSize ∧ ∃ c ∈ s.ask name ok, c.ip = h.2.ip
  | _ => True

instance (cfg : MtnCfg) (b : Box) (s : State) (l : Label) : Decidable (Seen cfg b s l) :=
  match l with
  | .useAlloc i env => inferInstanceAs (Decidable (∀ sp ∈ s.spawns[i]?, FreshFor s.db sp.netId env))
  | .bindAllocs netId env => inferInstanceAs (Decidable (FreshFor s.db netId env))
  | .usedAllocations env => inferInstanceAs (Decidable
      ((∀ r ∈ (Mtn.usedAllocations cfg ⟨s.db,env⟩).1.value?, ∀ a ∈ r.1, a.used = true) ∧
        ∀ names ∈ s.gc.names?, ∀ h ∈ s.holders b, h.1 ∈ names))
  | .getState ok => inferInstanceAs (Decidable (∀ name ∈ s.gc.inspected?, ∀ h ∈ s.watched, h.1 = name →
      ∃ c ∈ s.ask name ok, c.state = .running ∨ c.state = .starting))
  | .getIp ok => inferInstanceAs (Decidable (∀ name ∈ s.gc.reading?, ∀ h ∈ s.watched, h.1 = name →
      2 < h.2.ip.utf8ByteSize ∧ ∃ c ∈ s.ask name ok, c.ip = h.2.ip))
  | .spawn .. | .create .. | .setIp .. | .start .. | .cleanup .. | .destroy .. | .porto .. | .list ..
  | .destroyListed | .compareIps | .unuseAlloc .. => .isTrue trivial

end Stout.Porto.StartupGc
