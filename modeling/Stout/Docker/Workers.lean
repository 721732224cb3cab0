import Stout.Docker.Spawn
import Stout.Library.Registry
import Stout.Library.Runs

/-! # The workers of the Docker box

Calls of `Box.Spawn` that have a permit, the events that containers have died, which
`watchEvents` of `docker/box.go` takes in, and `Box.Inspect`, which looks through the
table for the identifier of a worker. The lock of the table is held for one operation at a
time, so calls go on in any order.
-/
namespace Stout.Docker.Workers
open Std (ExtTreeMap)
open Porto (Map lookup)
open Registry

/-- Where a call of `Spawn` is that has got its container. -/
inductive Pc where
  | inserting
  | starting
  | spawned
  | failed
deriving DecidableEq, Repr

structure SpawnCall where
  uuid : String
  process : Process
  pc : Pc
deriving DecidableEq, Repr

/-- The workers that have left the table are recorded. -/
structure State where
  world : World
  calls : List SpawnCall
  removed : List Process

def initial : State := ⟨⟨0,0,∅,[]⟩,[],[]⟩

inductive Label where
  | newContainer (o : Outside) (config : SpawnConfig)
  | insert (c : ℕ)
  | start (c : ℕ) (o : Outside)
  | die (id : String)

def State.setContainers (s : State) (containers : ExtTreeMap String Process compare) : State :=
  { s with
    world := { s.world with containers := containers }
    removed := s.removed ++ departed s.world.containers containers }

def State.newContainer (s : State) (o : Outside) (config : SpawnConfig) (profile : Profile) : State :=
  match Docker.newContainer o profile config.name config.executable config.args config.env s.world with
  | (.ok pr,w) => { s with world := w, calls := s.calls ++ [⟨lookup config.args "--uuid",pr,.inserting⟩] }
  | (_,w) => { s with world := w }

/-- One operation of a call, or an event: `watchEvents` deletes the entry before it removes
the container. -/
def step (s : State) : Label → Option State
  | .newContainer o config => (config.decodeTo defaultProfile).toOption.map (s.newContainer o config)
  | .insert c =>
    match s.calls[c]? with
    | some ⟨uuid,pr,.inserting⟩ =>
      some { s.setContainers (s.world.containers.insert pr.containerID pr) with calls := s.calls.set c ⟨uuid,pr,.starting⟩ }
    | _ => none
  | .start c o =>
    match s.calls[c]? with
    | some ⟨uuid,pr,.starting⟩ =>
      match startContainer o pr s.world with
      | (.ok (),w) => some { s with world := w, calls := s.calls.set c ⟨uuid,pr,.spawned⟩ }
      | (_,w) => some { s with world := w, calls := s.calls.set c ⟨uuid,pr,.failed⟩ }
    | _ => none
  | .die id => some (s.setContainers (s.world.containers.erase id))

/-- `Inspect`, with what `ContainerInspectWithRaw` answers for a container. -/
def inspect (containerInspect : String → Except String (List UInt8)) (order : List ℕ)
    (containers : ExtTreeMap String Process compare) (workeruuid : String) : Except String (List UInt8) :=
  match (entries order Process.uuid containers).find? fun e => e.2 = workeruuid with
  | some (cid,_) => containerInspect cid
  | none => .ok "\x7b\x7d".toUTF8.toList

/-! ## The property -/

/-- The calls had different identifiers, and each had one. -/
def Distinct (s : State) : Prop := (s.calls.map (·.uuid)).Nodup ∧ "" ∉ s.calls.map (·.uuid)

/-- `Inspect` finds the entry of each worker that was spawned and has not left the table, and
nothing for an identifier that no call had. -/
structure Finds (s : State) : Prop where
  live : ∀ c ∈ s.calls, c.pc = .spawned → c.process ∉ s.removed →
    s.world.containers[c.process.containerID]? = some c.process ∧ ∀ containerInspect order,
      inspect containerInspect order s.world.containers c.uuid = containerInspect c.process.containerID
  unknown : ∀ uuid ∉ s.calls.map (·.uuid), ∀ containerInspect order,
    inspect containerInspect order s.world.containers uuid = .ok "\x7b\x7d".toUTF8.toList

def State.workers (s : State) : List (String × Process) := s.calls.map fun c => (c.uuid,c.process)

/-- The identifier goes from the arguments to the entry, which is under the number of the
container; once it is made it is there or has left. -/
structure Inv (s : State) : Prop where
  carried : ∀ x ∈ s.workers, x.2.uuid = x.1
  own : ∀ (k : String) pr, s.world.containers[k]? = some pr → pr.containerID = k ∧ (pr.uuid,pr) ∈ s.workers
  kept : ∀ c ∈ s.calls, c.pc ≠ .inserting → Kept s.world.containers s.removed c.process

section Step
variable {s t : State} {c : ℕ} {uuid : String} {pr : Process} {pc : Pc}

theorem workers_set (hc : s.calls[c]? = some ⟨uuid,pr,pc⟩) (pc' : Pc) :
    (s.calls.set c ⟨uuid,pr,pc'⟩).map (fun c => (c.uuid,c.process)) = s.workers := by
  have hget : s.workers[c]? = some (uuid,pr) := by simp [State.workers, hc]
  obtain ⟨hlt,he⟩ := List.getElem?_eq_some_iff.mp hget
  rw [List.map_set, ← he]
  exact List.set_getElem_self hlt

theorem inv_initial : Inv initial := ⟨nofun,by simp [initial],nofun⟩

theorem newContainer_cases (s : State) (o : Outside) (config : SpawnConfig) (profile : Profile) :
    s.newContainer o config profile = s ∨ ∃ w id, w.containers = s.world.containers ∧ s.newContainer o config profile =
      { s with world := w, calls := s.calls ++ [⟨lookup config.args "--uuid",config.process id,.inserting⟩] } := by
  unfold State.newContainer Docker.newContainer
  cases o.containerCreate with
  | error e => exact Or.inl rfl
  | ok id =>
    let call : Call := .containerCreate id (containerConfig o profile config.name config.executable config.args config.env)
      (hostConfig profile config.args)
    exact Or.inr ⟨(record call s.world).2,id,rfl,rfl⟩

theorem Inv.newContainer (h : Inv s) (o : Outside) (config : SpawnConfig) (profile : Profile) :
    Inv (s.newContainer o config profile) := by
  obtain he | ⟨w,id,hw,he⟩ := newContainer_cases s o config profile
  · rwa [he]
  rw [he]
  refine ⟨?_,?_,?_⟩
  · simp only [State.workers, List.map_append, List.mem_append, List.map_singleton, List.mem_singleton]
    rintro x (hx | rfl)
    · exact h.carried x hx
    · rfl
  · intro k pr hk
    obtain ⟨hid,hm⟩ := h.own k pr (hw ▸ hk)
    exact ⟨hid,by rw [State.workers, List.map_append]; exact List.mem_append_left _ hm⟩
  · dsimp only
    rw [hw]
    intro x hx hpc
    rcases List.mem_append.mp hx with hx | hx
    · exact h.kept x hx hpc
    · rw [List.mem_singleton.mp hx] at hpc
      exact absurd rfl hpc

theorem Inv.insert (h : Inv s) (hc : s.calls[c]? = some ⟨uuid,pr,.inserting⟩) :
    Inv { s.setContainers (s.world.containers.insert pr.containerID pr) with calls := s.calls.set c ⟨uuid,pr,.starting⟩ } := by
  have hworkers := workers_set hc .starting
  refine ⟨fun x hx => h.carried x (hworkers ▸ hx),?_,?_⟩
  · intro k p hk
    rw [State.workers, hworkers]
    simp only [State.setContainers, ExtTreeMap.getElem?_insert] at hk
    split at hk
    case isTrue he =>
      cases hk
      refine ⟨by simpa using he,?_⟩
      have hmem : (uuid,pr) ∈ s.workers := List.mem_map.mpr ⟨_,List.mem_of_getElem? hc,rfl⟩
      rwa [h.carried _ hmem]
    case isFalse => exact h.own k p hk
  · intro x hx hpc
    rcases List.mem_or_eq_of_mem_set hx with hx | rfl
    · exact (h.kept x hx hpc).next _
    · exact Or.inl ⟨pr.containerID,ExtTreeMap.getElem?_insert_self⟩

theorem Inv.start (h : Inv s) (hc : s.calls[c]? = some ⟨uuid,pr,.starting⟩) {w : World}
    (hw : w.containers = s.world.containers) : Inv { s with world := w, calls := s.calls.set c ⟨uuid,pr,pc⟩ } := by
  have hworkers := workers_set hc pc
  refine ⟨fun x hx => h.carried x (hworkers ▸ hx),?_,?_⟩
  · intro k p hk
    rw [State.workers, hworkers]
    exact h.own k p (hw ▸ hk)
  · intro x hx hpc
    dsimp only
    rw [hw]
    rcases List.mem_or_eq_of_mem_set hx with hx | rfl
    · exact h.kept x hx hpc
    · exact h.kept ⟨uuid,pr,.starting⟩ (List.mem_of_getElem? hc) nofun

theorem Inv.die (h : Inv s) (id : String) : Inv (s.setContainers (s.world.containers.erase id)) := by
  refine ⟨h.carried,?_,fun x hx hpc => (h.kept x hx hpc).next _⟩
  intro k p hk
  simp only [State.setContainers, ExtTreeMap.getElem?_erase] at hk
  split at hk
  case isTrue => cases hk
  case isFalse => exact h.own k p hk

theorem Inv.step (h : Inv s) {l : Label} (hs : step s l = some t) : Inv t := by
  cases l with
  | newContainer o config =>
    obtain ⟨profile,-,rfl⟩ := Option.map_eq_some_iff.mp hs
    exact h.newContainer o config profile
  | insert c =>
    dsimp only [Workers.step] at hs
    split at hs
    case h_1 hc =>
      cases hs
      exact h.insert hc
    case h_2 => cases hs
  | start c o =>
    dsimp only [Workers.step, startContainer] at hs
    split at hs
    case h_1 hc =>
      cases ho : o.containerStart with
      | none | some _ =>
        rw [ho] at hs
        cases hs
        exact h.start hc rfl
    case h_2 => cases hs
  | die id =>
    cases hs
    exact h.die id

end Step

theorem Inv.call_of_entry {s : State} (h : Inv s) {k : String} {pr : Process} (hk : s.world.containers[k]? = some pr) :
    ∃ x ∈ s.calls, x.process = pr ∧ x.uuid = pr.uuid := by
  obtain ⟨x,hx,he⟩ := List.mem_map.mp (h.own k pr hk).2
  obtain ⟨huuid,hpr⟩ := Prod.mk.inj he
  exact ⟨x,hx,hpr,huuid⟩

theorem Inv.finds {s : State} (h : Inv s) (hd : Distinct s) : Finds s := by
  have huuid : ∀ x ∈ s.calls, x.process.uuid = x.uuid := fun x hx => h.carried _ (List.mem_map.mpr ⟨x,hx,rfl⟩)
  refine ⟨?_,?_⟩
  · intro x hx hpc hr
    obtain ⟨k,hk⟩ := (h.kept x hx (by simp [hpc])).resolve_right hr
    obtain ⟨rfl,-⟩ := h.own k _ hk
    refine ⟨hk,fun containerInspect order => ?_⟩
    have hunique : ∀ k' y, s.world.containers[k']? = some y → y.uuid = x.process.uuid → k' = x.process.containerID := by
      intro k' y hy he
      obtain ⟨rfl,-⟩ := h.own k' y hy
      obtain ⟨z,hz,rfl,hzy⟩ := h.call_of_entry hy
      have hzx : z = x := List.inj_on_of_nodup_map hd.1 hz hx (by rw [← huuid x hx, ← he, hzy])
      rw [hzx]
    rw [inspect, ← huuid x hx, find_of_unique hk hunique order]
  · intro uuid hu containerInspect order
    rw [inspect, find_of_absent Process.uuid s.world.containers (t := uuid) ?_ order]
    intro k y hy he
    obtain ⟨z,hz,-,hzy⟩ := h.call_of_entry hy
    exact hu (List.mem_map.mpr ⟨z,hz,hzy.trans he⟩)

theorem finds_of_runs {ls : List Label} {s : State} (h : Runs step initial ls s) (hd : Distinct s) : Finds s :=
  (h.invariant (fun _ _ _ hI hs => hI.step hs) inv_initial).finds hd

/-! ## A call by itself -/

section Alone
variable {o : Outside} {config : SpawnConfig} {w : World}

theorem of_spawn_ok {t : World} {pr : Process} (h : spawn o config w = (.ok pr,t)) : ∃ profile id,
    config.decodeTo defaultProfile = .ok profile ∧ o.containerCreate = .ok id ∧ o.containerStart = none ∧
      pr = config.process id ∧ t.containers = w.containers.insert id pr := by
  cases hd : config.decodeTo defaultProfile with
  | error e =>
    rw [spawn_of_decode_error hd] at h
    cases h
  | ok profile =>
    rw [spawn_of_decoded hd] at h
    split at h
    · cases h
    cases ha : o.acquire with
    | some e =>
      rw [ha] at h
      cases h
    | none =>
      rw [ha] at h
      dsimp only [Prog.defer] at h
      cases hc : o.containerCreate with
      | error e =>
        rw [createAndStart_of_create_error hc] at h
        cases h
      | ok id =>
        rw [createAndStart_of_created hc] at h
        cases hs : o.containerStart with
        | some e =>
          rw [hs] at h
          cases h
        | none =>
          rw [hs] at h
          cases h
          exact ⟨profile,id,rfl,rfl,rfl,rfl,rfl⟩

/-- Such a call is a run of its operations, and leaves the table as the run does. -/
theorem spawn_runs {t : World} {pr : Process} (h : spawn o config w = (.ok pr,t)) (calls : List SpawnCall)
    (removed : List Process) :
    ∃ u, Runs step ⟨w,calls,removed⟩ [.newContainer o config,.insert calls.length,.start calls.length o] u ∧
      u.world.containers = t.containers ∧ u.calls = calls ++ [⟨lookup config.args "--uuid",pr,.spawned⟩] := by
  obtain ⟨profile,id,hd,hc,hs,rfl,ht⟩ := of_spawn_ok h
  have hlast (x : SpawnCall) : (calls ++ [x])[calls.length]? = some x := by simp
  have hset (x y : SpawnCall) : (calls ++ [x]).set calls.length y = calls ++ [y] := by simp
  let call (pc : Pc) : SpawnCall := ⟨lookup config.args "--uuid",config.process id,pc⟩
  let w' := (record (.containerCreate id (containerConfig o profile config.name config.executable config.args config.env)
    (hostConfig profile config.args)) w).2
  let s : State := ⟨w',calls ++ [call .inserting],removed⟩
  let s' : State := { s.setContainers (w.containers.insert id (config.process id)) with calls := calls ++ [call .starting] }
  have hcreate : step ⟨w,calls,removed⟩ (.newContainer o config) = some s := by
    simp only [step, hd, Except.toOption, Option.map_some, State.newContainer, Docker.newContainer, hc]
    rfl
  have hinsert : step s (.insert calls.length) = some s' := by
    simp only [step, s, hlast, hset, call]
    rfl
  have hstart : step s' (.start calls.length o) =
      some { s' with world := (record (.containerStart id) s'.world).2, calls := calls ++ [call .spawned] } := by
    simp only [step, s', hlast, hset, call, startContainer, hs]
    rfl
  exact ⟨_,.step hcreate (.step hinsert (.single hstart)),ht.symm,rfl⟩

end Alone

end Stout.Docker.Workers
