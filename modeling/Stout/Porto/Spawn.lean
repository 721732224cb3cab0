import Stout.Library.FileTree
import Stout.Library.Runs
import Stout.Porto.ContainerLeaks

/-! # Spawning a container

`Spawn` of `porto/box.go` from the request to the started container, with the `Cleanup`
of `porto/container.go` that follows a failed start. The calls it has made are played on
a host: the directories there are, the volumes and the containers of porto. What a
volume shows below its path is left out, and so is the data of files, which no call here
changes.
-/
namespace Stout.Porto
open Mtn
open Paths (join resolve)

/-! ## The box -/

structure BoxConfig where
  name : String
  rootPrefix : String
  containers : String
  cleanupEnabled : Bool
  setImgURI : Bool
  volumeBackend : String
  cocaineAppVolumeLabel : String
  defaultUlimits : String
  defaultResolvConf : String
  mtnCfg : MtnCfg
  /-- the layers of an application in the journal -/
  getManifestLayers : String → String

/-- `SpawnConfig`, with what `DecodeTo` makes of the options. -/
structure SpawnConfig where
  opts : Except String Profile
  name : String
  executable : String
  args : Map
  env : Map

def appGenLabel (appname : String) : String := appname.map fun c => if c = ':' then '_' else c

def BoxConfig.addRootNamespacePrefix (b : BoxConfig) (container : String) : String := join b.rootPrefix container

def SpawnConfig.id (config : SpawnConfig) : String :=
  appGenLabel config.name ++ "_" ++ lookup config.args "--uuid"

def BoxConfig.containerConfig (b : BoxConfig) (config : SpawnConfig) (profile : Profile) : ContainerConfig where
  profile := profile
  name := config.name
  executable := config.executable
  ulimits := b.defaultUlimits
  resolvConf := b.defaultResolvConf
  args := config.args
  env := config.env
  mtnCfg := b.mtnCfg
  boxName := b.name
  root := join b.containers config.id
  id := b.addRootNamespacePrefix config.id
  layer := b.getManifestLayers config.name
  cleanupEnabled := b.cleanupEnabled
  setImgURI := b.setImgURI
  volumeBackend := b.volumeBackend
  mtn := false
  mtnAllocationId := ""
  mtnIp := ""
  volumeLabel := b.cocaineAppVolumeLabel

structure BoxState where
  world : World
  containers : String → Option Container

/-- What the other calls of `Spawn` meet: more than ten requests in the queue, no
connection to porto, a cancelled wait for the semaphore, a failed start. -/
structure SpawnOutside where
  creation : Outside
  queueFull : Bool
  portoConnect : Option String
  cancelled : Bool
  start : Option String

inductive SpawnError where
  | decode (err : String)
  | EAGAIN
  | noLayers
  | portoConnect (err : String)
  | ErrSpawningCancelled
  | newContainer (err : Err)
  | start (err : String)
deriving DecidableEq, Repr

/-- The allocation goes back; the error of `UnuseAlloc` is only logged. -/
def Container.unuse (c : Container) : Run Unit :=
  if c.mtn = true ∧ c.mtnAllocCleaned = false then do
    let _ ← (Prog.zoom World.mtn (fun w t => { w with mtn := t }) (unuseAlloc c.netId c.mtnAllocationId)).mapError Err.mtn
    pure ()
  else pure ()

def Container.cleanup (c : Container) : Run Unit := do
  c.unuse
  if c.cleanupEnabled then do
    destroyVolume c.volume
    c.extraVolumes.forM destroyVolume
    always [.destroy c.containerID,.removeAll c.rootDir]
  else pure ()

def Container.cleaned (c : Container) : Container := { c with mtnAllocCleaned := c.mtn || c.mtnAllocCleaned }

def inWorld {α : Type} (m : Run α) : Prog BoxState SpawnError α :=
  (Prog.zoom BoxState.world (fun s w => { s with world := w }) m).mapError .newContainer

def spawn (o : SpawnOutside) (b : BoxConfig) (config : SpawnConfig) : Prog BoxState SpawnError Container :=
  match config.opts with
  | .error err => Prog.throw (.decode err)
  | .ok profile =>
    if o.queueFull then Prog.throw .EAGAIN
    else if b.getManifestLayers config.name = "" then Prog.throw .noLayers
    else
      match o.portoConnect with
      | some err => Prog.throw (.portoConnect err)
      | none =>
        if o.cancelled then Prog.throw .ErrSpawningCancelled
        else do
          let pr ← inWorld (newContainer o.creation (b.containerConfig config profile))
          Prog.modify fun s => { s with containers := Function.update s.containers pr.containerID (some pr) }
          match o.start with
          | some err => do
            inWorld pr.cleanup
            -- the table holds the same object
            Prog.modify fun s => { s with containers := Function.update s.containers pr.containerID (some pr.cleaned) }
            Prog.throw (.start err)
          | none => pure pr

/-! ## The host -/

structure PortoVolume where
  properties : Map
  links : List String

/-- Paths are places, the last name first. -/
structure Host where
  node : List String → Option Node
  volumes : List String → Option PortoVolume
  containers : String → Option Map

/-- A volume without links is gone. -/
def PortoVolume.unlink (v : PortoVolume) (target : String) : Option PortoVolume :=
  let links := v.links.filter fun t => t ≠ target
  if links = [] then none else some { v with links := links }

/-- A call on the host. Porto refuses to create a volume where there is one
(`VolumeAlreadyExists`), and a container that is there (`ContainerAlreadyExists`); a new
volume is linked to the root container. -/
def Host.call (cwd : List String) (h : Host) : Call → Option Host
  | .mkdirAll path => some { h with
      node := fun q => if q <:+ resolve cwd path then some ((h.node q).getD .dir) else h.node q }
  | .removeAll path => some { h with node := fun q => if resolve cwd path <:+ q then none else h.node q }
  | .createVolume _ path properties =>
    if (h.volumes (resolve cwd path)).isSome then none
    else some { h with volumes := Function.update h.volumes (resolve cwd path) (some ⟨properties,["/"]⟩) }
  | .destroyVolume _ => some h
  | .linkVolume path target => some { h with
      volumes := Function.update h.volumes (resolve cwd path)
        ((h.volumes (resolve cwd path)).map fun v => { v with links := v.links ++ [target] }) }
  | .unlinkVolume path target => some { h with
      volumes := Function.update h.volumes (resolve cwd path)
        ((h.volumes (resolve cwd path)).bind fun v => v.unlink target) }
  | .create id =>
    if (h.containers id).isSome then none
    else some { h with containers := Function.update h.containers id (some ∅) }
  | .destroy id => some { h with containers := Function.update h.containers id none }
  | .setProperty id property value => some { h with
      containers := Function.update h.containers id ((h.containers id).map fun m => m.insert property value) }

/-! ## A live container -/

def Volume.dirs (v : Volume) : List String :=
  v.path :: match v.storagepath with
    | some storagepath => if storagepath ≠ "" then [storagepath] else []
    | none => []

def Container.volumes (x : Container) : List ℕ := x.volume :: x.extraVolumes

def Container.dirs (x : Container) (heap : List Volume) : List String :=
  x.volumes.flatMap fun v => (heap.getD v default).dirs

/-- The container has been created and not cleaned up. -/
structure Live (cwd : List String) (h : Host) (s : BoxState) (x : Container) : Prop where
  entry : s.containers x.containerID = some x
  created : (h.containers x.containerID).isSome = true
  mounted : ∀ v ∈ x.volumes, (h.volumes (resolve cwd (s.world.volume v).path)).isSome = true
  present : ∀ p ∈ x.dirs s.world.volumes, h.node (resolve cwd p) = some .dir

/-- The container alone on a host, with one place more. -/
def liveHost (cwd : List String) (heap : List Volume) (x : Container) (z : List String) : Host where
  node := (FileTree.above (z :: (x.dirs heap).map (resolve cwd))).node
  volumes q := if q ∈ x.volumes.map (fun v => resolve cwd (heap.getD v default).path) then some ⟨∅,[x.containerID]⟩ else none
  containers i := if i = x.containerID then some ∅ else none

/-- Nothing of the container has changed: its entry in the box, its porto container, its
volumes and all there is in its directories. -/
structure Intact (cwd : List String) (x : Container) (s : BoxState) (h : Host) (t : BoxState) (h' : Host) : Prop where
  entry : t.containers x.containerID = s.containers x.containerID
  container : h'.containers x.containerID = h.containers x.containerID
  objects : ∀ v ∈ x.volumes, t.world.volume v = s.world.volume v
  volumes : ∀ v ∈ x.volumes, h'.volumes (resolve cwd (s.world.volume v).path) =
    h.volumes (resolve cwd (s.world.volume v).path)
  dirs : ∀ p ∈ x.dirs s.world.volumes, ∀ q, resolve cwd p <:+ q → h'.node q = h.node q

/-! ## The directories a request names -/

section Request
variable (cwd : List String) (c : ContainerConfig)

def rootPath : String := join c.root "volume"

def storageOf (volumeprofile : VolumeProfile) : List String :=
  if lookup volumeprofile.properties "storage" ≠ "" then [join (lookup volumeprofile.properties "storage") c.id] else []

/-- The directories of the extra volumes, up to the first one without a target or at the
place of a volume before it: none is created there. -/
def extraDirs : List (List String) → List VolumeProfile → List String
  | _, [] => []
  | seen, volumeprofile :: rest =>
    if volumeprofile.target = "" then []
    else
      let path := join (rootPath c) volumeprofile.target
      path :: storageOf c volumeprofile ++
        if resolve cwd path ∈ seen then [] else extraDirs (resolve cwd path :: seen) rest

def AllCreated : List (List String) → List VolumeProfile → Prop
  | _, [] => True
  | seen, volumeprofile :: rest =>
    volumeprofile.target ≠ "" ∧ resolve cwd (join (rootPath c) volumeprofile.target) ∉ seen ∧
      AllCreated (resolve cwd (join (rootPath c) volumeprofile.target) :: seen) rest

/-- The path is neither in one of the directories nor above one. -/
def Clear (dirs : List String) (path : String) : Prop :=
  ∀ d ∈ dirs, ¬resolve cwd path <:+ resolve cwd d ∧ ¬resolve cwd d <:+ resolve cwd path

/-- No directory that the request names touches those of the other container. The root
directory counts where a container can be created and is cleaned up when it does not
start. -/
structure Spares (dirs : List String) (id : String) : Prop where
  root : Clear cwd dirs (rootPath c)
  extra : ∀ p ∈ extraDirs cwd c [resolve cwd (rootPath c)] c.profile.extraVolumes, Clear cwd dirs p
  rootDir : AllCreated cwd c [resolve cwd (rootPath c)] c.profile.extraVolumes → c.id ≠ id →
    (c.asksMtn → c.netid ≠ "") → c.cleanupEnabled = true → Clear cwd dirs c.root

end Request

end Stout.Porto
