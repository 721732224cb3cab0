import Stout.Library.Registry
import Stout.Process.Box

/-! # The workers of the process box

The children of the box with the identifiers of their workers, and `Box.Inspect` of
`process/box.go`. `Spawn` does not put the identifier into the table: what `Inspect`
compares is always empty.
-/
namespace Stout.Process.Workers
open Std (ExtTreeMap)
open Registry

structure WorkerInfo where
  cmd : ℕ
  uuid : String
deriving DecidableEq, Repr

def workerInfo (cmd : ℕ) : WorkerInfo := ⟨cmd,""⟩

/-- The arguments `--uuid` by command, the commands that `Spawn` has returned, and those that
have left the table. -/
structure State where
  box : Process.State
  uuids : List String
  spawned : List ℕ
  removed : List ℕ

def initial : State := ⟨Process.initial,[],[],[]⟩

/-- A step of the box; a call of `Spawn` has the identifier `uuid`. -/
structure Label where
  uuid : String
  op : Process.Label

def State.returns (s : State) (l : Label) : List ℕ :=
  match l.op, s.box.spawning with
  | .spawn _ .unlock, some (.unlock (.spawned cmd)) => [cmd]
  | _, _ => []

def State.follow (s : State) (l : Label) (t : Process.State) : State :=
  { box := t
    uuids := if t.procs.length = s.box.procs.length then s.uuids else s.uuids ++ [l.uuid]
    spawned := s.spawned ++ s.returns l
    removed := s.removed ++ departed s.box.children t.children }

def step (s : State) (l : Label) : Option State := (Process.step s.box l.op).map (s.follow l)

def pidData (pid : ℕ) : String := "\x7b\"pid\":" ++ toString pid ++ "\x7d"

def inspect (order : List ℕ) (children : ExtTreeMap ℕ ℕ compare) (worker : String) : String :=
  match (entries order (fun cmd => (workerInfo cmd).uuid) children).find? fun e => e.2 = worker with
  | some (pid,_) => pidData pid
  | none => "\x7b\x7d"

/-! ## The property -/

/-- The calls that started a process had different identifiers, and each had one. -/
def Distinct (s : State) : Prop := s.uuids.Nodup ∧ "" ∉ s.uuids

/-- `Inspect` returns the number of each worker that was spawned and has not left the table,
and an empty object for an identifier that no call had. -/
structure Finds (s : State) : Prop where
  live : ∀ cmd ∈ s.spawned, cmd ∉ s.removed → ∃ uuid p, s.uuids[cmd]? = some uuid ∧ s.box.procs[cmd]? = some p ∧
    s.box.children[p.pid]? = some cmd ∧ ∀ order, inspect order s.box.children uuid = pidData p.pid
  unknown : ∀ uuid ∉ s.uuids, ∀ order, inspect order s.box.children uuid = "\x7b\x7d"

/-- Once an entry is made it is there or has left. -/
structure Inv (s : State) : Prop where
  unlocking : ∀ cmd, s.box.spawning = some (.unlock (.spawned cmd)) → Registry.Kept s.box.children s.removed cmd
  spawned : ∀ cmd ∈ s.spawned, Registry.Kept s.box.children s.removed cmd

section Step
variable {s t : State} {l : Label}

theorem inv_initial : Inv initial := ⟨nofun,nofun⟩

theorem entry_of_spawn {s t : Process.State} {pid : ℕ} {e : Event} (h : s.spawn pid e = some t) {cmd : ℕ}
    (ht : t.spawning = some (.unlock (.spawned cmd))) : ∃ pid : ℕ, t.children[pid]? = some cmd := by
  obtain ⟨-,h⟩ := Option.ite_none_left_eq_some.mp h
  obtain ⟨r,hr,h⟩ := Option.bind_eq_some_iff.mp h
  obtain ⟨u,hu,rfl⟩ := Option.map_eq_some_iff.mp h
  obtain rfl := Sum.getLeft?_eq_some_iff.mp ht
  generalize s.spawning.getD .lock = pl at hr hu
  unfold Place.next at hr
  split at hr <;> cases hr
  obtain ⟨p,-,rfl⟩ := Option.map_eq_some_iff.mp hu
  exact ⟨p.pid,ExtTreeMap.getElem?_insert_self⟩

theorem entry_of_step {s t : Process.State} {l : Process.Label} (hs : Process.step s l = some t) {cmd : ℕ}
    (ht : t.spawning = some (.unlock (.spawned cmd))) :
    s.spawning = some (.unlock (.spawned cmd)) ∨ ∃ pid : ℕ, t.children[pid]? = some cmd := by
  cases l with
  | spawn pid e => exact Or.inr (entry_of_spawn hs ht)
  | handler op => cases handle_cases hs <;> exact Or.inl ht
  | _ =>
    cases step_cases hs
    exact Or.inl ht

theorem Inv.step (h : Inv s) (hs : step s l = some t) : Inv t := by
  obtain ⟨box,hbox,rfl⟩ := Option.map_eq_some_iff.mp hs
  refine ⟨?_,?_⟩
  · intro cmd hc
    rcases entry_of_step hbox hc with hold | hentry
    · exact (h.unlocking cmd hold).next _
    · exact Or.inl hentry
  · intro cmd hc
    refine Registry.Kept.next ?_ _
    rcases List.mem_append.mp hc with hc | hc
    · exact h.spawned cmd hc
    · unfold State.returns at hc
      split at hc
      case h_1 hlock =>
        cases List.mem_singleton.mp hc
        exact h.unlocking cmd hlock
      case h_2 => cases hc

end Step

theorem inspect_of_ne {worker : String} (h : worker ≠ "") (order : List ℕ) (children : ExtTreeMap ℕ ℕ compare) :
    inspect order children worker = "\x7b\x7d" := by
  have hnone := find_of_absent (fun cmd => (workerInfo cmd).uuid) children (fun _ _ _ => h.symm) order
  rw [inspect, hnone]

theorem pidData_ne (pid : ℕ) : pidData pid ≠ "\x7b\x7d" := by
  intro h
  have hchars := congrArg String.toList h
  simp [pidData] at hchars

/-- The empty identifier, which no call has, is that of every entry. -/
theorem inspect_empty {children : ExtTreeMap ℕ ℕ compare} {pid cmd : ℕ} (h : children[pid]? = some cmd) (order : List ℕ) :
    inspect order children "" ≠ "\x7b\x7d" := by
  intro he
  unfold inspect at he
  split at he
  case h_1 pid' _ _ => exact pidData_ne pid' he
  case h_2 hf => simpa [workerInfo] using List.find?_eq_none.mp hf (pid,"") (mem_entries.mpr ⟨cmd,h,rfl⟩)

theorem Inv.finds_iff {s : State} (h : Inv s) (hd : Distinct s) : Finds s ↔ s.box.children = ∅ := by
  constructor
  · intro hf
    refine ExtTreeMap.ext_getElem? fun pid => ?_
    cases hp : s.box.children[pid]? with
    | none => simp
    | some cmd => exact absurd (hf.unknown "" hd.2 []) (inspect_empty hp [])
  · intro hempty
    refine ⟨?_,?_⟩
    · intro cmd hc hr
      obtain ⟨pid,hp⟩ := (h.spawned cmd hc).resolve_right hr
      simp [hempty] at hp
    · intro uuid _ order
      rw [inspect, hempty, find_of_absent _ _ (by simp) order]

/-- `Inspect` finds the workers exactly while there are none. -/
theorem finds_iff_of_runs {ls : List Label} {s : State} (h : Runs step initial ls s) (hd : Distinct s) :
    Finds s ↔ s.box.children = ∅ :=
  (h.invariant (fun _ _ _ hI hs => hI.step hs) inv_initial).finds_iff hd

end Stout.Process.Workers
