import Mathlib

/-! # Spawning a worker process

`Box.Spawn` of `process/box.go` between `Acquire` and the deferred `Release`: under the
lock of the box the context is looked at, the process is started and its command is put
into `children`.
-/
namespace Stout.Process

/-- What `Spawn` returns once it has had a permit; a process is known by its command. -/
inductive Spawned where
  | errSpawningCancelled
  | newProcessError
  | spawned (cmd : ℕ)
deriving DecidableEq, Repr

inductive Place where
  | lock
  | isCancelled
  | newProcess
  | insert (cmd : ℕ)
  | unlock (r : Spawned)
deriving DecidableEq, Repr

inductive Event where
  | lock
  | isCancelled (cancelled : Bool)
  | newProcess (cmd : Option ℕ)
  | insert
  | unlock
deriving DecidableEq, Repr

def Place.next : Place → Event → Option (Place ⊕ Spawned)
  | .lock, .lock => some (.inl .isCancelled)
  | .isCancelled, .isCancelled true => some (.inl (.unlock .errSpawningCancelled))
  | .isCancelled, .isCancelled false => some (.inl .newProcess)
  | .newProcess, .newProcess (some cmd) => some (.inl (.insert cmd))
  | .newProcess, .newProcess none => some (.inl (.unlock .newProcessError))
  | .insert cmd, .insert => some (.inl (.unlock (.spawned cmd)))
  | .unlock r, .unlock => some (.inr r)
  | _, _ => none

end Stout.Process
