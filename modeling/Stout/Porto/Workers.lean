import Stout.Library.Registry
import Stout.Porto.Inspect
import Stout.Porto.SpawnCalls
import Stout.Porto.Tracking

/-! # The workers of the porto box

The containers of the box with what `Box.Inspect` looks them up by. `newContainer` takes the
identifier of the worker from the arguments; from then on it goes with the container, while
`Spawn` and `waitLoop` change the table.
-/
namespace Stout.Porto.Workers
open Mtn
open Std (ExtTreeMap)
open Registry Tracking

/-- The argument `--uuid` of a call of `Spawn` with the container that was made for it. -/
structure Worker where
  uuid : String
  container : Porto.Container
deriving DecidableEq, Repr

/-- The workers in the order of their containers, those whose `Spawn` has returned them, and
those that have left the table. -/
structure State where
  box : Tracking.State
  workers : List Worker
  spawned : List ℕ
  removed : List ℕ

def initial (db : Db) : State := ⟨Tracking.initial db,[],[],[]⟩

/-- `newContainer` of a call of `Spawn`, or another step of the box. -/
inductive Label where
  | newContainer (o : Outside) (config : SpawnConfig) (env : Env)
  | box (l : Tracking.Label)

def tracked (c : Porto.Container) : Cleanup.Container := ⟨c.mtn,c.netId,c.mtnAllocationId,c.mtnAllocCleaned,0⟩

def State.newContainer (b : BoxConfig) (s : State) (o : Outside) (config : SpawnConfig) (env : Env) (profile : Profile) :
    State :=
  let core := s.box.core
  match Porto.newContainer o (b.containerConfig config profile) ⟨[],[],⟨core.db,env⟩⟩ with
  | (.ok c,w) => { s with
      box := { s.box with
        core := { core with db := w.mtn.db, containers := core.containers ++ [tracked c] }
        users := s.box.users ++ [⟨core.containers.length,.inserting c.containerID⟩] }
      workers := s.workers ++ [⟨lookup config.args "--uuid",c⟩] }
  | (_,w) => { s with box := { s.box with core := { core with db := w.mtn.db } } }

def State.returns (s : State) : Tracking.Label → List ℕ
  | .start u true => ((s.box.users[u]?).map (·.container)).toList
  | _ => []

def State.follow (s : State) (l : Tracking.Label) (t : Tracking.State) : State :=
  { s with
    box := t
    spawned := s.spawned ++ s.returns l
    removed := s.removed ++ departed s.box.containers t.containers }

def creates : Tracking.Label → Bool
  | .newContainer _ _ _ _ _ => true
  | _ => false

def step (b : BoxConfig) (s : State) : Label → Option State
  | .newContainer o config env =>
    if s.box.loop = .crashed then none else config.opts.toOption.map (s.newContainer b o config env)
  | .box l => if creates l then none else (Tracking.step b.mtnCfg s.box l).map (s.follow l)

def State.uuid (s : State) (i : ℕ) : String := ((s.workers[i]?).map (·.container.uuid)).getD ""

/-- `Inspect` on the table as it is gone through. -/
def inspect (enc : Inspect.Encoder) (o : Inspect.Outside) (cached : List Json.Bytes) (order : List ℕ) (s : State)
    (workeruuid : String) : Except Inspect.Err Json.Bytes :=
  Inspect.inspect enc o cached (entries order s.uuid s.box.containers) workeruuid

/-! ## The property -/

/-- The calls that got a container had different identifiers, and each had one. -/
def Distinct (s : State) : Prop := (s.workers.map (·.uuid)).Nodup ∧ "" ∉ s.workers.map (·.uuid)

/-- `Inspect` selects the entry of each worker that was spawned and has not left the table,
and answers nothing for an identifier that no call had. -/
structure Finds (s : State) : Prop where
  live : ∀ i ∈ s.spawned, i ∉ s.removed → ∃ x, s.workers[i]? = some x ∧ s.box.containers[x.container.containerID]? = some i ∧
    ∀ order, (entries order s.uuid s.box.containers).find? (fun e => e.2 = x.uuid) = some (x.container.containerID,x.uuid)
  unknown : ∀ uuid ∉ s.workers.map (·.uuid), ∀ enc o cached order, inspect enc o cached order s uuid = .ok []

/-- The identifier goes from the arguments to the container, and each container has its worker;
an entry is under the name of its container, and once it is made it is there or has left. -/
structure Inv (s : State) : Prop where
  carried : ∀ x ∈ s.workers, x.container.uuid = x.uuid
  length : s.workers.length = s.box.core.containers.length
  own : ∀ (k : String) i, s.box.containers[k]? = some i → ∃ x, s.workers[i]? = some x ∧ x.container.containerID = k
  inserting : ∀ i id, ⟨i,.inserting id⟩ ∈ s.box.users → ∃ x, s.workers[i]? = some x ∧ x.container.containerID = id
  starting : ∀ i, ⟨i,.starting⟩ ∈ s.box.users → Registry.Kept s.box.containers s.removed i
  spawned : ∀ i ∈ s.spawned, Registry.Kept s.box.containers s.removed i

/-! ## What a step changes -/

def late : Pc → Bool
  | .inserting _ | .starting => false
  | _ => true

/-- No container comes in, no entry comes in, and no call of `Spawn` gets ahead. -/
structure Passive (s t : Tracking.State) : Prop where
  length : t.core.containers.length = s.core.containers.length
  table : ∀ (k : String) (i : ℕ), t.containers[k]? = some i → s.containers[k]? = some i
  users : ∀ x ∈ t.users, x ∈ s.users ∨ late x.pc = true

section Passive
variable {s t : Tracking.State} {u : ℕ} {x : User} {l : Tracking.Label}

theorem Passive.setLoop (loop : Loop) : Passive s { s with loop := loop } := ⟨rfl,fun _ _ h => h,fun _ h => Or.inl h⟩

theorem Passive.setCore {core : Cleanup.State} (h : core.containers.length = s.core.containers.length) :
    Passive s { s with core := core } :=
  ⟨h,fun _ _ h => h,fun _ h => Or.inl h⟩

theorem Passive.move {pc : Pc} (h : late pc = true) : Passive s (s.move u x pc) := by
  refine ⟨rfl,fun _ _ h => h,fun y hy => ?_⟩
  rcases List.mem_or_eq_of_mem_set hy with hy | rfl
  · exact Or.inl hy
  · exact Or.inr h

theorem Passive.addUser (h : late x.pc = true) : Passive s { s with users := s.users ++ [x] } := by
  refine ⟨rfl,fun _ _ h => h,fun y hy => ?_⟩
  rcases List.mem_append.mp hy with hy | hy
  · exact Or.inl hy
  · rw [List.mem_singleton.mp hy]
    exact Or.inr h

theorem Passive.trans {r : Tracking.State} (h : Passive s t) (h' : Passive t r) : Passive s r := by
  refine ⟨h'.length.trans h.length,fun k i hk => h.table k i (h'.table k i hk),fun x hx => ?_⟩
  rcases h'.users x hx with hx | hx
  · exact h.users x hx
  · exact Or.inr hx

theorem Passive.take (name : String) (names : List String) : Passive s (s.take name names) := by
  unfold State.take
  split
  case h_1 => exact .setLoop _
  case h_2 i _ =>
    refine ⟨rfl,fun k j hk => ?_,(Passive.addUser (x := ⟨i,.connecting⟩) rfl).users⟩
    rw [ExtTreeMap.getElem?_erase] at hk
    split at hk
    · cases hk
    · exact hk

theorem Passive.check (name : String) (names : List String) (seen : Seen) : Passive s (s.check name names seen) := by
  cases seen with
  | alive => exact .setLoop _
  | dead => exact .take name names
  | doesNotExist => exact .take name names
  | portoError => exact .setLoop _
  | otherError => exact .setLoop _

theorem length_unuseAlloc {core core' : Cleanup.State} {j : ℕ} {env : Env} (h : core.unuseAlloc j env = some core') :
    core'.containers.length = core.containers.length := by
  unfold Cleanup.State.unuseAlloc at h
  split at h
  case h_1 =>
    obtain ⟨c,-,rfl⟩ := Option.map_eq_some_iff.mp h
    exact List.length_set
  case h_2 => cases h

theorem length_set {core core' : Cleanup.State} {j : ℕ} (h : core.set j = some core') :
    core'.containers.length = core.containers.length := by
  unfold Cleanup.State.set at h
  split at h
  case h_1 =>
    obtain ⟨c,-,rfl⟩ := Option.map_eq_some_iff.mp h
    exact List.length_set
  case h_2 => cases h

theorem use_cases (hs : s.use u x x.pc l = some t) : Passive s t ∨ ∃ id, x.pc = .inserting id ∧
    t = { s.move u x .starting with containers := s.containers.insert id x.container } := by
  unfold State.use at hs
  split at hs
  case h_1 id v hpc => exact Or.inr ⟨id,hpc,(Option.some.inj hs).symm⟩
  case h_7 =>
    obtain ⟨core,hc,rfl⟩ := Option.map_eq_some_iff.mp hs
    obtain ⟨c,-,rfl⟩ := Option.map_eq_some_iff.mp hc
    exact Or.inl ((Passive.move rfl).trans (.setCore rfl))
  case h_8 =>
    obtain ⟨core,hc,rfl⟩ := Option.map_eq_some_iff.mp hs
    exact Or.inl (.setCore (length_unuseAlloc hc))
  case h_9 =>
    obtain ⟨core,hc,rfl⟩ := Option.map_eq_some_iff.mp hs
    exact Or.inl (.setCore (length_set hc))
  case h_10 =>
    obtain ⟨-,ht⟩ := Option.ite_none_right_eq_some.mp hs
    cases ht
    exact Or.inl (.move rfl)
  case h_11 => cases hs
  all_goals
    cases hs
    exact Or.inl (.move rfl)

theorem step_cases {cfg : MtnCfg} (hl : creates l = false) (hs : Tracking.step cfg s l = some t) :
    Passive s t ∨
    ∃ u i id, s.users[u]? = some ⟨i,.inserting id⟩ ∧ t.core = s.core ∧ t.containers = s.containers.insert id i ∧
      t.users = s.users.set u ⟨i,.starting⟩ := by
  unfold Tracking.step at hs
  split at hs
  case isTrue => cases hs
  cases l with
  | newContainer id mtn netId box env => cases hl
  | bindAllocs netId env =>
    cases hs
    exact Or.inl (.setCore rfl)
  | kill i =>
    obtain ⟨-,hs⟩ := Option.ite_none_right_eq_some.mp hs
    cases hs
    exact Or.inl (.addUser rfl)
  | list _ | stop =>
    obtain ⟨-,hs⟩ := Option.ite_none_right_eq_some.mp hs
    cases hs
    exact Or.inl (.setLoop _)
  | check seen =>
    dsimp only at hs
    split at hs
    case h_1 name names _ =>
      cases hs
      exact Or.inl (.check name names seen)
    case h_2 => cases hs
  | next =>
    dsimp only at hs
    split at hs
    case h_1 =>
      cases hs
      exact Or.inl (.setLoop _)
    case h_2 =>
      obtain ⟨-,hs⟩ := Option.ite_none_right_eq_some.mp hs
      cases hs
      exact Or.inl (.setLoop _)
    case h_3 => cases hs
  | insert u | start u _ | connect u _ | killed u | read u | unuseAlloc u _ | set u | cleaned u =>
    obtain ⟨x,hx,hs⟩ := Option.bind_eq_some_iff.mp hs
    obtain ⟨i,pc⟩ := x
    rcases use_cases hs with hp | ⟨id,rfl,rfl⟩
    · exact Or.inl hp
    · exact Or.inr ⟨_,i,id,hx,rfl,rfl,rfl⟩

end Passive

/-! ## The invariant -/

theorem inv_initial (db : Db) : Inv (initial db) :=
  ⟨nofun,rfl,by simp [initial, Tracking.initial],nofun,nofun,nofun⟩

section Follow
variable {cfg : MtnCfg} {s : State} {l : Tracking.Label} {box : Tracking.State}

theorem starting_of_returns (hs : Tracking.step cfg s.box l = some box) {i : ℕ} (hi : i ∈ s.returns l) :
    ⟨i,.starting⟩ ∈ s.box.users := by
  unfold State.returns at hi
  split at hi
  case h_1 u =>
    obtain ⟨x,hx,rfl⟩ := Option.map_eq_some_iff.mp (Option.mem_toList.mp hi)
    obtain ⟨i,pc⟩ := x
    rw [Tracking.step] at hs
    obtain ⟨-,hs⟩ := Option.ite_none_left_eq_some.mp hs
    rw [hx, Option.bind_some] at hs
    cases pc <;> cases hs
    exact List.mem_of_getElem? hx
  case h_2 => cases hi

theorem Inv.kept (h : Inv s) (hs : Tracking.step cfg s.box l = some box) {i : ℕ}
    (hi : ⟨i,.starting⟩ ∈ s.box.users ∨ i ∈ s.spawned ++ s.returns l) : Registry.Kept box.containers (s.follow l box).removed i := by
  refine Registry.Kept.next ?_ _
  rcases hi with hi | hi
  · exact h.starting i hi
  rcases List.mem_append.mp hi with hi | hi
  · exact h.spawned i hi
  · exact h.starting i (starting_of_returns hs hi)

variable (h : Inv s)
  (hkept : ∀ i, (⟨i,.starting⟩ ∈ s.box.users ∨ i ∈ s.spawned ++ s.returns l) → Registry.Kept box.containers (s.follow l box).removed i)

include h hkept

theorem Inv.passive (hp : Passive s.box box) : Inv (s.follow l box) := by
  refine ⟨h.carried,h.length.trans hp.length.symm,fun k i hk => h.own k i (hp.table k i hk),?_,?_,fun i hi => hkept i (Or.inr hi)⟩
  · intro i id hi
    rcases hp.users _ hi with hi | hi
    · exact h.inserting i id hi
    · cases hi
  · intro i hi
    rcases hp.users _ hi with hold | hlate
    · exact hkept i (Or.inl hold)
    · cases hlate

theorem Inv.inserts {u i : ℕ} {id : String} (hu : s.box.users[u]? = some ⟨i,.inserting id⟩) (hcore : box.core = s.box.core)
    (htable : box.containers = s.box.containers.insert id i) (husers : box.users = s.box.users.set u ⟨i,.starting⟩) :
    Inv (s.follow l box) := by
  refine ⟨h.carried,h.length.trans (by rw [State.follow, hcore]),?_,?_,?_,fun i hi => hkept i (Or.inr hi)⟩
  · intro k j hk
    rw [State.follow, htable, ExtTreeMap.getElem?_insert] at hk
    split at hk
    case isTrue he =>
      cases hk
      rw [← compare_eq_iff_eq.mp he]
      exact h.inserting i id (List.mem_of_getElem? hu)
    case isFalse => exact h.own k j hk
  · intro j id' hj
    rw [State.follow, husers] at hj
    rcases List.mem_or_eq_of_mem_set hj with hj | hj
    · exact h.inserting j id' hj
    · cases hj
  · intro j hj
    rw [State.follow, husers] at hj
    rcases List.mem_or_eq_of_mem_set hj with hj | hj
    · exact hkept j (Or.inl hj)
    · cases hj
      exact Or.inl ⟨id,by rw [State.follow, htable, ExtTreeMap.getElem?_insert_self]⟩

end Follow

section Step
variable {b : BoxConfig} {s t : State}

theorem uuid_of_newContainer {o : Outside} {c : ContainerConfig} {w t : World} {x : Porto.Container}
    (h : Porto.newContainer o c w = (.ok x,t)) : x.uuid = lookup c.args "--uuid" := by
  obtain ⟨w₁,w₂,c',-,-,hcont,-,-,-,huuid⟩ := newContainer_ok h
  obtain ⟨-,-,-,-,hargs,-⟩ := createContainer_config hcont
  rw [huuid, hargs]

theorem Inv.newContainer (h : Inv s) (o : Outside) (config : SpawnConfig) (env : Env) (profile : Profile) :
    Inv (s.newContainer b o config env profile) := by
  unfold State.newContainer
  dsimp only
  split
  case h_2 => exact ⟨h.carried,h.length,h.own,h.inserting,h.starting,h.spawned⟩
  case h_1 c w hc =>
  have hold : ∀ {j : ℕ} {x : Worker} (y : Worker), s.workers[j]? = some x → (s.workers ++ [y])[j]? = some x := by
    intro j x y hj
    rw [List.getElem?_append_left (List.getElem?_eq_some_iff.mp hj).1, hj]
  refine ⟨?_,?_,?_,?_,?_,h.spawned⟩
  · intro x hx
    rcases List.mem_append.mp hx with hx | hx
    · exact h.carried x hx
    · rw [List.mem_singleton.mp hx]
      exact uuid_of_newContainer hc
  · simp [h.length]
  · intro k j hk
    obtain ⟨x,hx,hid⟩ := h.own k j hk
    exact ⟨x,hold _ hx,hid⟩
  · intro j id hj
    rcases List.mem_append.mp hj with hj | hj
    · obtain ⟨x,hx,hid⟩ := h.inserting j id hj
      exact ⟨x,hold _ hx,hid⟩
    · cases List.mem_singleton.mp hj
      exact ⟨⟨lookup config.args "--uuid",c⟩,by rw [← h.length]; simp,rfl⟩
  · intro j hj
    rcases List.mem_append.mp hj with hj | hj
    · exact h.starting j hj
    · cases List.mem_singleton.mp hj

theorem Inv.step {l : Label} (h : Inv s) (hs : step b s l = some t) : Inv t := by
  cases l with
  | newContainer o config env =>
    obtain ⟨-,hs⟩ := Option.ite_none_left_eq_some.mp hs
    obtain ⟨profile,-,rfl⟩ := Option.map_eq_some_iff.mp hs
    exact h.newContainer o config env profile
  | box l =>
    obtain ⟨hl,hs⟩ := Option.ite_none_left_eq_some.mp hs
    obtain ⟨box,hbox,rfl⟩ := Option.map_eq_some_iff.mp hs
    have hkept := fun i => h.kept (i := i) hbox
    rcases step_cases (Bool.not_eq_true _ ▸ hl) hbox with hp | ⟨u,i,id,hu,hcore,htable,husers⟩
    · exact h.passive hkept hp
    · exact h.inserts hkept hu hcore htable husers

end Step

theorem Inv.finds {s : State} (h : Inv s) (hd : Distinct s) : Finds s := by
  have huuid : ∀ {i : ℕ} {x : Worker}, s.workers[i]? = some x → s.uuid i = x.uuid := by
    intro i x hx
    rw [← h.carried x (List.mem_of_getElem? hx)]
    simp [State.uuid, hx]
  refine ⟨?_,?_⟩
  · intro i hi hr
    obtain ⟨k,hk⟩ := (h.spawned i hi).resolve_right hr
    obtain ⟨x,hw,rfl⟩ := h.own k i hk
    refine ⟨x,hw,hk,fun order => ?_⟩
    have hunique : ∀ k' j, s.box.containers[k']? = some j → s.uuid j = s.uuid i → k' = x.container.containerID := by
      intro k' j hj he
      obtain ⟨y,hw',rfl⟩ := h.own k' j hj
      rw [huuid hw, huuid hw'] at he
      have hi : (s.workers.map (·.uuid))[i]? = some x.uuid := by simp [hw]
      have hj : (s.workers.map (·.uuid))[j]? = some x.uuid := by simpa [hw'] using he
      obtain rfl : i = j := (List.getElem?_inj (List.getElem?_eq_some_iff.mp hi).1 hd.1).mp (hi.trans hj.symm)
      cases hw.symm.trans hw'
      rfl
    have hfind := find_of_unique hk hunique order
    rwa [huuid hw] at hfind
  · intro uuid hu enc o cached order
    have hnone := find_of_absent s.uuid s.box.containers (t := uuid) (fun k i hk he => ?_) order
    · rw [inspect, Inspect.inspect, hnone]
    · obtain ⟨x,hw,-⟩ := h.own k i hk
      rw [huuid hw] at he
      exact hu (List.mem_map.mpr ⟨_,List.mem_of_getElem? hw,he⟩)

theorem finds_of_runs {b : BoxConfig} {db : Db} {ls : List Label} {s : State} (h : Runs (step b) (initial db) ls s)
    (hd : Distinct s) : Finds s :=
  (h.invariant (fun _ _ _ hI hs => hI.step hs) (inv_initial db)).finds hd

end Stout.Porto.Workers
