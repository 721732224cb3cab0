import Stout.Isolate.Mtn
import Stout.Library.Paths

/-! # Containers of porto and their volumes

`porto/container_config.go` and `newContainer` of `porto/container.go`. Volumes are
objects on a heap, since they are changed through the interface they are handed on
by. A call of porto or of the file system that the code looks at fails where
`Outside.fault` says so; each of them is made at most once. The results of the calls
that clean up are only logged, so here those calls are made and nothing more. The
order of a loop over a Go map is taken from the lists of `Outside`.
-/
namespace Stout.Porto
open Std (ExtTreeMap)
open Mtn RangeOrder
open Paths (join)

abbrev Map := ExtTreeMap String String compare

/-- `m[k]`, the empty string for a key that is not there. -/
def lookup (m : Map) (k : String) : String := m.getD k ""

/-! ## The world -/

structure VolumeProfile where
  target : String
  properties : Map

structure Profile where
  registry : String
  networkMode : String
  network : Map
  cwd : String
  binds : List String
  container : Map
  volume : Map
  extraVolumes : List VolumeProfile

structure ContainerConfig where
  profile : Profile
  name : String
  executable : String
  ulimits : String
  resolvConf : String
  args : Map
  env : Map
  mtnCfg : MtnCfg
  boxName : String
  root : String
  id : String
  layer : String
  cleanupEnabled : Bool
  setImgURI : Bool
  volumeBackend : String
  mtn : Bool
  mtnAllocationId : String
  mtnIp : String
  volumeLabel : String

/-- A `portoVolume`, or a `storageVolume` if it has a storage path. -/
structure Volume where
  cID : String
  path : String
  linked : Bool
  properties : Map
  storagepath : Option String

instance : Inhabited Volume := ⟨⟨"","",false,∅,none⟩⟩

/-- The calls that have been made and have not failed. A call of the method `Destroy`
of a volume is marked before those it makes itself. -/
inductive Call where
  | mkdirAll (path : String)
  | removeAll (path : String)
  | createVolume (v : ℕ) (path : String) (properties : Map)
  | destroyVolume (v : ℕ)
  | linkVolume (path target : String)
  | unlinkVolume (path target : String)
  | create (id : String)
  | destroy (id : String)
  | setProperty (id property value : String)

structure World where
  volumes : List Volume
  log : List Call
  mtn : Store

inductive Point where
  | mkdirRoot
  | createRoot
  | mkdirTarget (i : ℕ)
  | mkdirStorage (i : ℕ)
  | createExtra (i : ℕ)
  | create
  | setProperty (property : String)
  | linkRoot
  | linkExtra (i : ℕ)
deriving DecidableEq, Repr

structure Outside where
  fault : Point → Option String
  envOrder : List ℕ
  argsOrder : List ℕ
  propertiesOrder : List ℕ

inductive Err where
  | text (err : String)
  | mtn (err : Mtn.Err)
deriving DecidableEq, Repr

abbrev Run (α : Type) := Prog World Err α

def World.volume (w : World) (v : ℕ) : Volume := w.volumes.getD v default

def World.record (w : World) (calls : List Call) : World := { w with log := w.log ++ calls }

/-- Calls whose result is not looked at. -/
def always (calls : List Call) : Run Unit := Prog.modify fun w => w.record calls

/-- A call that may fail, and then has done nothing. -/
def trying (o : Outside) (p : Point) (call : Call) : Run Unit :=
  match o.fault p with
  | some e => Prog.throw (.text e)
  | none => always [call]

def newVolume (volume : Volume) : Run ℕ := fun w => (.ok w.volumes.length,{ w with volumes := w.volumes ++ [volume] })

def update (v : ℕ) (f : Volume → Volume) : Run Unit := Prog.modify fun w => { w with volumes := w.volumes.modify v f }

/-! ## Volumes -/

def Volume.destroyCalls (volume : Volume) (v : ℕ) : List Call :=
  [.destroyVolume v] ++
  (if volume.linked then [.unlinkVolume volume.path volume.cID,.unlinkVolume volume.path "self"] else []) ++
  [.unlinkVolume volume.path "/",.removeAll volume.path] ++
  match volume.storagepath with
  | some storagepath => if storagepath ≠ "" then [.removeAll storagepath] else []
  | none => []

def destroyVolume (v : ℕ) : Run Unit := Prog.modify fun w => w.record ((w.volume v).destroyCalls v)

def link (o : Outside) (p : Point) (v : ℕ) : Run Unit := do
  let w ← Prog.read
  let volume := w.volume v
  trying o p (.linkVolume volume.path volume.cID)
  always [.unlinkVolume volume.path "/"]
  update v fun volume => { volume with linked := true }

def createRootVolume (o : Outside) (c : ContainerConfig) : Run ℕ := do
  let properties : Map := ((∅ : Map).insert "backend" c.volumeBackend).insert "layers" c.layer |>.insert "private" c.volumeLabel
  let properties := c.profile.volume.foldl (fun m limit value => m.insert limit value) properties
  let path := join c.root "volume"
  trying o .mkdirRoot (.mkdirAll path)
  let v ← newVolume ⟨c.id,path,false,properties,none⟩
  Prog.onError (trying o .createRoot (.createVolume v path properties)) (destroyVolume v)
  pure v

def cleanUpOnError (volumes : List ℕ) : Run Unit := volumes.forM destroyVolume

def emptyTarget : Err := .text "can not create volume with empty target"

/-- The storage directory, if the volume wants one; its path goes into the properties. -/
def createStorage (o : Outside) (c : ContainerConfig) (i : ℕ) (volumeprofile : VolumeProfile) (volumes : List ℕ)
    (v : ℕ) : Run Map :=
  let storage := lookup volumeprofile.properties "storage"
  if storage ≠ "" then do
    let storagepath := join storage c.id
    Prog.onError (trying o (.mkdirStorage i) (.mkdirAll storagepath)) (cleanUpOnError volumes)
    let properties := volumeprofile.properties.insert "storage" storagepath
    update v fun volume => { volume with storagepath := some storagepath, properties := properties }
    pure properties
  else pure volumeprofile.properties

/-- An extra volume as it is allocated: a `storageVolume`, its path still empty, if the
profile asks for storage. -/
def extraVolume (c : ContainerConfig) (path : String) (volumeprofile : VolumeProfile) : Volume :=
  ⟨c.id,path,false,volumeprofile.properties,
    if lookup volumeprofile.properties "storage" ≠ "" then some "" else none⟩

/-- The loop of `CreateExtraVolumes`, at the `i`-th volume. -/
def createExtra (o : Outside) (c : ContainerConfig) (root : String) :
    ℕ → List ℕ → List VolumeProfile → Run (List ℕ)
  | _, volumes, [] => pure volumes
  | i, volumes, volumeprofile :: rest =>
    if volumeprofile.target = "" then do
      cleanUpOnError volumes
      Prog.throw emptyTarget
    else do
      let path := join root volumeprofile.target
      Prog.onError (trying o (.mkdirTarget i) (.mkdirAll path)) (cleanUpOnError volumes)
      let v ← newVolume (extraVolume c path volumeprofile)
      let properties ← createStorage o c i volumeprofile (volumes ++ [v]) v
      Prog.onError (trying o (.createExtra i) (.createVolume v path properties)) (cleanUpOnError (volumes ++ [v]))
      createExtra o c root (i + 1) (volumes ++ [v]) rest

def createExtraVolumes (o : Outside) (c : ContainerConfig) (root : ℕ) : Run (List ℕ) := do
  let w ← Prog.read
  createExtra o c (w.volume root).path 0 [] c.profile.extraVolumes

/-! ## Properties -/

def formatCommand (o : Outside) (executable : String) (args : Map) : String :=
  (arrange o.argsOrder args.toList).foldl (fun buff p => buff ++ " " ++ p.1 ++ " " ++ p.2) executable

def formatEnv (o : Outside) (env : Map) : String :=
  (arrange o.envOrder env.toList).foldl
    (fun buff p => (if buff = "" then buff else buff ++ ";") ++ p.1 ++ "=" ++ p.2) ""

def pickNetwork (network : String) : String :=
  match network with
  | "inherited" => network
  | _ => "inherited"

/-- The mount points, and the arguments with the endpoint moved to where it is mounted. -/
def formatBinds (binds : List String) (args : Map) : String × Map :=
  (binds.foldl (fun buff dockerBind => buff ++ ";" ++ dockerBind.map fun c => if c = ':' then ' ' else c)
      (lookup args "--endpoint" ++ " " ++ "/run/cocaine"),
    args.insert "--endpoint" "/run/cocaine")

/-- A property that is merged with what the profile has under its name. -/
def merged (properties : Map) (property value : String) : Map :=
  match properties[property]? with
  | some given => properties.insert property (given ++ ";" ++ value)
  | none => properties.insert property value

/-- The properties of the container but for the network. -/
def ContainerConfig.properties (o : Outside) (c : ContainerConfig) (root : String) : Map :=
  let env := if c.setImgURI then c.env.insert "image_uri" (c.profile.registry ++ "/" ++ c.name) else c.env
  let properties : Map := if c.ulimits ≠ "" then (∅ : Map).insert "ulimit" c.ulimits else ∅
  let properties := if c.profile.cwd ≠ "" then properties.insert "cwd" c.profile.cwd else properties
  let properties := c.profile.container.foldl (fun m property value => m.insert property value) properties
  let properties := merged properties "env" (formatEnv o env)
  let (binds,args) := formatBinds c.profile.binds c.args
  let properties := merged properties "bind" binds
  let properties := if c.resolvConf ≠ "" then properties.insert "resolv_conf" c.resolvConf else properties
  ((properties.insert "command" (formatCommand o c.executable args)).insert "root" root).insert "enable_porto" "false"

def withAllocation (properties : Map) (alloc : Allocation) : Map :=
  ((properties.insert "net" alloc.net).insert "hostname" alloc.hostname).insert "ip" alloc.ip

def ContainerConfig.netid (c : ContainerConfig) : String := lookup c.profile.network "netid"

/-- The network properties, with an allocation if the profile asks for MTN. -/
def network (c : ContainerConfig) (properties : Map) : Run (Map × ContainerConfig) :=
  let c := { c with mtn := false }
  if c.mtnCfg.enable = false then pure (properties.insert "net" (pickNetwork c.profile.networkMode),c)
  else if lookup c.profile.network "mtn" = "enable" then do
    let alloc ← (Prog.zoom World.mtn (fun w t => { w with mtn := t }) (useAlloc c.mtnCfg c.netid c.boxName)).mapError Err.mtn
    pure (withAllocation properties alloc,{ c with mtn := true, mtnAllocationId := alloc.id, mtnIp := alloc.ip })
  else pure (properties,c)

/-! ## Containers -/

def setProperties (o : Outside) (c : ContainerConfig) (properties : Map) : Run Unit :=
  (arrange o.propertiesOrder properties.toList).forM fun p =>
    trying o (.setProperty p.1) (.setProperty c.id p.1 p.2)

/-- Linking one volume, with the `Destroy` of the container if that fails. -/
def linkOrDestroy (o : Outside) (c : ContainerConfig) (p : Point) (v : ℕ) : Run Unit :=
  Prog.onError (link o p v) (always [.destroy c.id])

def linkAll (o : Outside) (c : ContainerConfig) (root : ℕ) (extraVolumes : List ℕ) : Run Unit := do
  linkOrDestroy o c .linkRoot root
  extraVolumes.zipIdx.forM fun p => linkOrDestroy o c (.linkExtra p.2) p.1

/-- The rest of `CreateContainer`, with the properties known. -/
def finish (o : Outside) (root : ℕ) (extraVolumes : List ℕ) (r : Map × ContainerConfig) : Run ContainerConfig := do
  setProperties o r.2 r.1
  linkAll o r.2 root extraVolumes
  pure r.2

/-- The configuration comes back with what MTN has put into it. -/
def createContainer (o : Outside) (c : ContainerConfig) (root : ℕ) (extraVolumes : List ℕ) : Run ContainerConfig := do
  trying o .create (.create c.id)
  Prog.onError (do
    let w ← Prog.read
    let r ← network c (c.properties o (w.volume root).path)
    finish o root extraVolumes r) (always [.destroy c.id])

structure Container where
  uuid : String
  containerID : String
  mtnIp : String
  rootDir : String
  cleanupEnabled : Bool
  setImgURI : Bool
  volume : ℕ
  extraVolumes : List ℕ
  volumeLabel : String
  mtn : Bool
  netId : String
  mtnAllocationId : String
  mtnAllocCleaned : Bool
deriving DecidableEq, Repr

def newContainer (o : Outside) (c : ContainerConfig) : Run Container := do
  let volume ← createRootVolume o c
  let extravolumes ← Prog.onError (createExtraVolumes o c volume) (destroyVolume volume)
  let c ← Prog.onError (createContainer o c volume extravolumes) (destroyVolume volume)
  pure ⟨lookup c.args "--uuid",c.id,c.mtnIp,c.root,c.cleanupEnabled,c.setImgURI,volume,extravolumes,c.volumeLabel,
    c.mtn,c.netid,c.mtnAllocationId,!c.mtn⟩

end Stout.Porto
