import Stout.Porto.Container

/-! # Spawning a Docker container

`Box.Spawn` of `docker/box.go` with `newContainer` and `startContainer` of
`docker/container.go`, from the decoding of the profile to the return. The answers of
Docker and of the semaphore are given by `Outside`; the calls that were made and did not
fail are logged.
-/
namespace Stout.Docker
open Std (ExtTreeMap)
open Porto (Map lookup)
open Paths (base dir join)
open RangeOrder

/-! ## Data -/

/-- The numbers are those that `Number.Int` gives, nought for what is not an integer. -/
structure Resources where
  memory : ℤ
  cpuShares : ℤ
  cpuPeriod : ℤ
  cpuQuota : ℤ
  cpusetCpus : String
  cpusetMems : String

structure Profile where
  registry : String
  networkMode : String
  runtimePath : String
  cwd : String
  resources : Resources
  tmpfs : Map
  binds : List String

/-- The profile is what `DecodeTo` makes of the fields it starts from. -/
structure SpawnConfig where
  decodeTo : Profile → Except String Profile
  name : String
  executable : String
  args : Map
  env : Map

structure Config where
  env : List String
  cmd : List String
  image : String
  workingDir : String
  labels : List (String × String)

structure HostConfig where
  networkMode : String
  binds : List String
  resources : Resources
  tmpfs : Option Map

structure Process where
  containerID : String
  uuid : String
deriving DecidableEq, Repr

inductive Call where
  | containerCreate (id : String) (config : Config) (hostConfig : HostConfig)
  | containerStart (id : String)
  | containerRemove (id : String)
  | cancellation (id : String)

structure World where
  spawningQueueSize : ℤ
  spawnSM : ℕ
  containers : ExtTreeMap String Process compare
  log : List Call

structure Outside where
  acquire : Option String
  containerCreate : Except String String
  containerStart : Option String
  envOrder : List ℕ
  argsOrder : List ℕ

inductive Err where
  | decode (err : String)
  | EAGAIN
  | errSpawningCancelled
  | docker (err : String)
deriving DecidableEq, Repr

abbrev Run (α : Type) := Prog World Err α

def record (call : Call) : Run Unit := Prog.modify fun w => { w with log := w.log ++ [call] }

/-! ## Spawn -/

def defaultRuntimePath : String := "/var/run/cocaine"
def isolateDockerLabel : String := "cocaine-isolate"

/-- What `decodeProfile` starts from. -/
def defaultProfile : Profile := ⟨"","bridge",defaultRuntimePath,"",⟨0,0,0,0,"",""⟩,∅,[]⟩

def decodeProfile (config : SpawnConfig) : Run Profile :=
  match config.decodeTo defaultProfile with
  | .error e => Prog.throw (.decode e)
  | .ok profile => pure profile

def containerConfig (o : Outside) (profile : Profile) (name executable : String) (args env : Map) : Config :=
  let args := args.insert "--endpoint" (join profile.runtimePath (base (lookup args "--endpoint")))
  { env := (arrange o.envOrder env.toList).map fun p => p.1 ++ "=" ++ p.2
    cmd := executable :: (arrange o.argsOrder args.toList).flatMap fun p => [p.1,p.2]
    image := if profile.registry ≠ "" then profile.registry ++ "/" ++ name else name
    workingDir := profile.cwd
    labels := [(isolateDockerLabel,name)] }

def hostConfig (profile : Profile) (args : Map) : HostConfig :=
  { networkMode := profile.networkMode
    binds := (dir (lookup args "--endpoint") ++ ":" ++ profile.runtimePath) :: profile.binds
    resources := profile.resources
    tmpfs := if profile.tmpfs.size ≠ 0 then some profile.tmpfs else none }

def newContainer (o : Outside) (profile : Profile) (name executable : String) (args env : Map) : Run Process :=
  match o.containerCreate with
  | .error e => Prog.throw (.docker e)
  | .ok id => do
    record (.containerCreate id (containerConfig o profile name executable args env) (hostConfig profile args))
    pure ⟨id,lookup args "--uuid"⟩

/-- The goroutine that collects the output is started whatever happens. -/
def startContainer (o : Outside) (pr : Process) : Run Unit :=
  match o.containerStart with
  | some e => do
    record (.cancellation pr.containerID)
    Prog.throw (.docker e)
  | none => record (.containerStart pr.containerID)

def createAndStart (o : Outside) (config : SpawnConfig) (profile : Profile) : Run Process := do
  let pr ← newContainer o profile config.name config.executable config.args config.env
  Prog.modify fun w => { w with containers := w.containers.insert pr.containerID pr }
  startContainer o pr
  pure pr

def incQueue (n : ℤ) : Run Unit := Prog.modify fun w => { w with spawningQueueSize := w.spawningQueueSize + n }

def spawn (o : Outside) (config : SpawnConfig) : Run Process := do
  let profile ← decodeProfile config
  incQueue 1
  let w ← Prog.read
  if w.spawningQueueSize > 10 then do
    incQueue (-1)
    Prog.throw .EAGAIN
  else match o.acquire with
    | some _ => do
      incQueue (-1)
      Prog.throw .errSpawningCancelled
    | none => do
      Prog.modify fun w => { w with spawnSM := w.spawnSM + 1 }
      incQueue (-1)
      Prog.defer (Prog.modify fun w => { w with spawnSM := w.spawnSM - 1 }) (createAndStart o config profile)

/-! ## All or nothing -/

def callsSince (w t : World) : List Call := t.log.drop w.log.length

/-- A call that fails leaves the table as it was and no container in Docker; one that
does not fail adds its process to the table. -/
def AllOrNothing (w : World) (r : Outcome Err Process × World) : Prop :=
  match r.1 with
  | .ok pr => r.2.containers = w.containers.insert pr.containerID pr
  | .error _ => r.2.containers = w.containers ∧ ∀ id config hostConfig,
      .containerCreate id config hostConfig ∈ callsSince w r.2 → .containerRemove id ∈ callsSince w r.2
  | .panic _ => False

theorem AllOrNothing.of_untouched {w t : World} {e : Err} (hc : t.containers = w.containers) (hl : t.log = w.log) :
    AllOrNothing w (.error e,t) := by
  refine ⟨hc,?_⟩
  intro id config hostConfig h
  rw [callsSince, hl, List.drop_length] at h
  cases h

/-- A container that was created and did not start is left in Docker. -/
theorem not_allOrNothing_of_left {w t : World} {e : Err} {id : String} {c : Config} {h : HostConfig}
    (hl : t.log = w.log ++ [.containerCreate id c h] ++ [.cancellation id]) : ¬AllOrNothing w (.error e,t) := by
  rintro ⟨-,hrm⟩
  have hcalls : callsSince w t = [.containerCreate id c h,.cancellation id] := by
    rw [callsSince, hl, List.append_assoc, List.drop_left]
    rfl
  have hm := hrm id c h (by rw [hcalls]; exact List.mem_cons_self)
  rw [hcalls] at hm
  simp at hm

section Spawning
variable {o : Outside} {config : SpawnConfig} {profile : Profile} {w : World}

theorem createAndStart_of_create_error {e : String} (h : o.containerCreate = .error e) :
    createAndStart o config profile w = (.error (.docker e),w) := by
  unfold createAndStart newContainer
  rw [h]
  rfl

def SpawnConfig.process (config : SpawnConfig) (id : String) : Process := ⟨id,lookup config.args "--uuid"⟩

def World.created (w : World) (o : Outside) (config : SpawnConfig) (profile : Profile) (id : String) : World :=
  { w with
    containers := w.containers.insert id (config.process id)
    log := w.log ++ [.containerCreate id (containerConfig o profile config.name config.executable config.args config.env)
      (hostConfig profile config.args)] }

/-- Nothing is taken back when the container does not start. -/
theorem createAndStart_of_created {id : String} (h : o.containerCreate = .ok id) :
    createAndStart o config profile w =
      match o.containerStart with
      | none => (.ok (config.process id),(record (.containerStart id) (w.created o config profile id)).2)
      | some e => (.error (.docker e),(record (.cancellation id) (w.created o config profile id)).2) := by
  unfold createAndStart newContainer startContainer
  rw [h]
  cases o.containerStart with
  | none => rfl
  | some e => rfl

theorem spawn_of_decode_error {e : String} (h : config.decodeTo defaultProfile = .error e) :
    spawn o config w = (.error (.decode e),w) := by
  unfold spawn decodeProfile
  rw [h]
  rfl

/-- The queue of a box with room in it, seen by the test. -/
theorem spawn_of_decoded (h : config.decodeTo defaultProfile = .ok profile) :
    spawn o config w =
      if w.spawningQueueSize + 1 > 10 then (.error .EAGAIN,{ w with spawningQueueSize := w.spawningQueueSize + 1 + -1 })
      else match o.acquire with
        | some _ => (.error .errSpawningCancelled,{ w with spawningQueueSize := w.spawningQueueSize + 1 + -1 })
        | none => Prog.defer (Prog.modify fun w => { w with spawnSM := w.spawnSM - 1 }) (createAndStart o config profile)
            { w with spawningQueueSize := w.spawningQueueSize + 1 + -1, spawnSM := w.spawnSM + 1 } := by
  unfold spawn decodeProfile
  rw [h]
  change (if w.spawningQueueSize + 1 > 10 then _ else _ : Run Process) { w with spawningQueueSize := w.spawningQueueSize + 1 } = _
  split
  · rfl
  · cases o.acquire with
    | none => rfl
    | some e => rfl

end Spawning

def Reaches (o : Outside) (config : SpawnConfig) (w : World) : Prop :=
  (∃ profile, config.decodeTo defaultProfile = .ok profile) ∧ w.spawningQueueSize < 10 ∧ o.acquire = none ∧
    ∃ id, o.containerCreate = .ok id

/-- `Spawn` is all or nothing exactly when it does not get to `ContainerStart` or that
succeeds. -/
theorem spawn_allOrNothing_iff (o : Outside) (config : SpawnConfig) (w : World) :
    AllOrNothing w (spawn o config w) ↔ ¬Reaches o config w ∨ o.containerStart = none := by
  cases hd : config.decodeTo defaultProfile with
  | error e =>
    have hr : ¬Reaches o config w := by
      rintro ⟨⟨profile,hp⟩,-⟩
      rw [hd] at hp
      cases hp
    rw [spawn_of_decode_error hd, iff_true_right (Or.inl hr)]
    exact .of_untouched rfl rfl
  | ok profile =>
    rw [spawn_of_decoded hd]
    by_cases hq : w.spawningQueueSize + 1 > 10
    · have hr : ¬Reaches o config w := by
        rintro ⟨-,hlt,-⟩
        omega
      rw [if_pos hq, iff_true_right (Or.inl hr)]
      exact .of_untouched rfl rfl
    · rw [if_neg hq]
      cases ha : o.acquire with
      | some e =>
        have hr : ¬Reaches o config w := by
          rintro ⟨-,-,hn,-⟩
          rw [ha] at hn
          cases hn
        rw [iff_true_right (Or.inl hr)]
        exact .of_untouched rfl rfl
      | none =>
        cases hc : o.containerCreate with
        | error e =>
          have hr : ¬Reaches o config w := by
            rintro ⟨-,-,-,id,hid⟩
            rw [hc] at hid
            cases hid
          rw [iff_true_right (Or.inl hr), Prog.defer, createAndStart_of_create_error hc]
          exact .of_untouched rfl rfl
        | ok id =>
          have hr : Reaches o config w := ⟨⟨profile,hd⟩,by omega,ha,id,hc⟩
          rw [or_iff_right (not_not_intro hr), Prog.defer, createAndStart_of_created hc]
          cases hs : o.containerStart with
          | none => exact iff_of_true rfl rfl
          | some e =>
            refine iff_of_false ?_ nofun
            exact not_allOrNothing_of_left rfl

/-- A container is created and does not start: it stays in the table and in Docker. -/
theorem spawn_leaves_container :
    let o : Outside := ⟨none,.ok "c1",some "no such file",[],[]⟩
    let config : SpawnConfig := ⟨.ok,"app","/app/run",∅,∅⟩
    let w : World := ⟨0,0,∅,[]⟩
    ∃ t, spawn o config w = (.error (.docker "no such file"),t) ∧ "c1" ∈ t.containers ∧
      .containerRemove "c1" ∉ t.log ∧ ¬AllOrNothing w (spawn o config w) := by
  intro o config w
  refine ⟨_,rfl,?_,?_,?_⟩
  · exact ExtTreeMap.mem_insert_self
  · intro h
    have hlog : Call.containerRemove "c1" ∈ ([.containerCreate "c1" _ _,.cancellation "c1"] : List Call) := h
    simp at hlog
  · exact not_allOrNothing_of_left rfl

end Stout.Docker
