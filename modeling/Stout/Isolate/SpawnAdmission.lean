import Stout.Library.Admission
import Stout.Process.Spawn
import Stout.Docker.Spawn

/-! # Admission to Spawn

`Box.Spawn` of `process/box.go` and of `docker/box.go` as pools of calls that share
`spawningQueueSize` and the semaphore of the box. Both go through the same waiting room
of ten; they differ in what they do with a permit, and every way out of that goes
through the deferred `Release`.
-/
namespace Stout
open Admission

def spawnLimit : ℕ := 10

namespace Process

/-- The lock of the box is left free to all: more interleavings than there are. -/
def spawnWork : Work Place Event Spawned := ⟨.lock,Place.next⟩

/-- `spawnSm` is made with ten permits. -/
def spawnSm : ℕ := 10

def spawnStep : State Place Spawned → ℕ × Admission.Event Event → Option (State Place Spawned) :=
  step spawnLimit spawnSm spawnWork

end Process

namespace Docker

inductive Spawned where
  | dockerError
  | spawned (id : String)
deriving DecidableEq, Repr

inductive Place where
  | newContainer
  | insert (id : String)
  | startContainer (id : String)
deriving DecidableEq, Repr

inductive Event where
  | newContainer (id : Option String)
  | insert
  | startContainer (ok : Bool)
deriving DecidableEq, Repr

def Place.next : Place → Event → Option (Place ⊕ Spawned)
  | .newContainer, .newContainer (some id) => some (.inl (.insert id))
  | .newContainer, .newContainer none => some (.inr .dockerError)
  | .insert id, .insert => some (.inl (.startContainer id))
  | .startContainer id, .startContainer true => some (.inr (.spawned id))
  | .startContainer _, .startContainer false => some (.inr .dockerError)
  | _, _ => none

def spawnWork : Work Place Event Spawned := ⟨.newContainer,Place.next⟩

/-- The number of permits is the `SpawnConcurrency` of the configuration. -/
def spawnStep (spawnConcurrency : ℕ) :
    State Place Spawned → ℕ × Admission.Event Event → Option (State Place Spawned) :=
  step spawnLimit spawnConcurrency spawnWork

/-! ## One call of Docker's Spawn in the pool -/

def reply : Outcome Err Process → Reply Spawned
  | .ok pr => .done (.spawned pr.containerID)
  | .error (.decode _) => .invalid
  | .error .EAGAIN => .refused
  | .error .errSpawningCancelled => .cancelled
  | .error (.docker _) => .done .dockerError
  | .panic _ => .invalid

def workEvents (o : Outside) : List (Admission.Event Event) :=
  match o.containerCreate with
  | .error _ => [.work (.newContainer none),.release]
  | .ok id => [.work (.newContainer (some id)),.work .insert,.work (.startContainer o.containerStart.isNone),.release]

/-- The operations of a call that finds `q` calls in the room. -/
def spawnEvents (o : Outside) (config : SpawnConfig) (q : ℤ) : List (Admission.Event Event) :=
  match config.decodeTo defaultProfile with
  | .error _ => [.prepare false]
  | .ok _ =>
    if q + 1 > 10 then [.prepare true,.inc,.count,.dec]
    else match o.acquire with
      | some _ => [.prepare true,.inc,.count,.cancel,.dec]
      | none => .prepare true :: .inc :: .count :: .acquire :: .dec :: workEvents o

section Follow
variable {o : Outside} {config : SpawnConfig} {profile : Profile} {w : World} {size n : ℕ} {q : ℤ}

theorem follow_workEvents : Pc.follow spawnLimit size spawnWork (.work .newContainer) q (n + 1) (workEvents o) =
    some (.returned (reply (createAndStart o config profile w).1),q,n) := by
  unfold workEvents
  cases hc : o.containerCreate with
  | error e =>
    rw [createAndStart_of_create_error hc]
    rfl
  | ok id =>
    rw [createAndStart_of_created hc]
    cases o.containerStart with
    | none => rfl
    | some e => rfl

theorem createAndStart_counts (o : Outside) (config : SpawnConfig) (profile : Profile) (w : World) :
    (createAndStart o config profile w).2.spawningQueueSize = w.spawningQueueSize ∧
    (createAndStart o config profile w).2.spawnSM = w.spawnSM := by
  cases hc : o.containerCreate with
  | error e => simp [createAndStart_of_create_error hc]
  | ok id =>
    rw [createAndStart_of_created hc]
    cases o.containerStart with
    | none => exact ⟨rfl,rfl⟩
    | some e => exact ⟨rfl,rfl⟩

theorem follow_spawnEvents (h : o.acquire = none → w.spawnSM < size) :
    Pc.follow spawnLimit size spawnWork .prepare w.spawningQueueSize w.spawnSM
        (spawnEvents o config w.spawningQueueSize) =
      some (.returned (reply (spawn o config w).1),(spawn o config w).2.spawningQueueSize,(spawn o config w).2.spawnSM) := by
  unfold spawnEvents
  cases hd : config.decodeTo defaultProfile with
  | error e =>
    rw [spawn_of_decode_error hd]
    rfl
  | ok profile =>
    rw [spawn_of_decoded hd]
    by_cases hq : w.spawningQueueSize + 1 > 10
    · have hl : w.spawningQueueSize + 1 > (spawnLimit : ℤ) := hq
      simp only [hq, if_true, Pc.follow, Pc.next, Option.bind_some, hl]
      rfl
    · have hl : ¬w.spawningQueueSize + 1 > (spawnLimit : ℤ) := hq
      cases ha : o.acquire with
      | some e =>
        simp only [hq, if_false, Pc.follow, Pc.next, Option.bind_some, hl]
        rfl
      | none =>
        simp only [hq, if_false, Pc.follow, Pc.next, Option.bind_some, hl, h ha, if_true]
        obtain ⟨hcount,hsm⟩ := createAndStart_counts o config profile
          ({ w with spawningQueueSize := w.spawningQueueSize + 1 + -1, spawnSM := w.spawnSM + 1 })
        simp only [Prog.defer, Prog.modify, hcount, hsm]
        exact follow_workEvents

/-- The pool does with a call what `spawn` does, whatever calls are there: the reply, the
counter and the permits are those of `spawn`. -/
theorem runs_spawnEvents (calls : List (Pc Place Spawned)) (h : o.acquire = none → w.spawnSM < size) :
    Runs (spawnStep size) ⟨w.spawningQueueSize,w.spawnSM,calls⟩
      ((calls.length,.call) :: (spawnEvents o config w.spawningQueueSize).map fun e => (calls.length,e))
      ⟨(spawn o config w).2.spawningQueueSize,(spawn o config w).2.spawnSM,
        calls ++ [.returned (reply (spawn o config w).1)]⟩ :=
  .step rfl (runs_of_follow (follow_spawnEvents h))

end Follow

end Docker

/-- In every state of every run of the calls to one box. -/
theorem spawn_admits :
    (∀ as t, Runs Process.spawnStep initial as t → Admits spawnLimit Process.spawnSm Process.spawnWork t) ∧
    ∀ size as t, Runs (Docker.spawnStep size) initial as t → Admits spawnLimit size Docker.spawnWork t := by
  constructor
  · intro as t h
    exact runs_admits h
  · intro size as t h
    exact runs_admits h

def enter {ε : Type} (i : ℕ) : List (ℕ × Admission.Event ε) := [(i,.call),(i,.prepare true),(i,.inc),(i,.count)]

/-- Twelve calls that overlap: the first has got a permit and the last is refused, before one
of the ten that wait in between is cancelled. -/
def crowd {ε : Type} : List (ℕ × Admission.Event ε) :=
  enter 0 ++ [(0,.acquire),(0,.dec)] ++ (List.range 11).flatMap (fun i => enter (i + 1)) ++ [(11,.dec),(1,.cancel),(1,.dec)]

theorem spawn_admits_crowd :
    Admits spawnLimit Process.spawnSm Process.spawnWork
      ⟨9,1,[.work .lock,.returned .cancelled] ++ List.replicate 9 .acquire ++ [.returned .refused]⟩ ∧
    Admits spawnLimit 1 Docker.spawnWork
      ⟨9,1,[.work .newContainer,.returned .cancelled] ++ List.replicate 9 .acquire ++ [.returned .refused]⟩ :=
  ⟨spawn_admits.1 crowd _ (.of_run (by decide +kernel)),spawn_admits.2 1 crowd _ (.of_run (by decide +kernel))⟩

end Stout
