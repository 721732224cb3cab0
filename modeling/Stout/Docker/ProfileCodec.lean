import Stout.Docker.Spawn
import Stout.Isolate.RawProfile

/-! # The profile of a Docker container on the wire

`DecodeMsg` of `Profile` and `Resources` in `docker/profile_decodable.go`, and
`decodeProfile` of `docker/profile.go` with it.
-/
namespace Stout.Docker
open Msgpack
open Isolate (RawProfile textOf textMap textMapOf textsOf textOf_field textMapOf_field textsOf_field)
open Json (ofAscii)

namespace Wire

/-- Of a number the bits are kept. -/
@[ext] structure Resources where
  memory : ℕ
  cpuShares : ℕ
  cpuPeriod : ℕ
  cpuQuota : ℕ
  cpusetCpus : Bytes
  cpusetMems : Bytes

structure Profile where
  registry : Bytes
  repository : Bytes
  endpoint : Bytes
  networkMode : Bytes
  runtimePath : Bytes
  cwd : Bytes
  resources : Resources
  tmpfs : StrMap
  binds : Slice Bytes

def Resources.fields : List (Bytes × Codec Resources) :=
  [(ofAscii "memory",.focus memory (fun z a => { z with memory := a }) (.number none)),
    (ofAscii "CpuShares",.focus cpuShares (fun z a => { z with cpuShares := a }) (.number none)),
    (ofAscii "CpuPeriod",.focus cpuPeriod (fun z a => { z with cpuPeriod := a }) (.number none)),
    (ofAscii "CpuQuota",.focus cpuQuota (fun z a => { z with cpuQuota := a }) (.number none)),
    (ofAscii "CpusetCpus",.focus cpusetCpus (fun z a => { z with cpusetCpus := a }) (.string none)),
    (ofAscii "CpusetMems",.focus cpusetMems (fun z a => { z with cpusetMems := a }) (.string none))]

def Resources.codec : Codec Resources := .struct none fields

/-- Errors are handed on as they are. -/
def Profile.fields : List (Bytes × Codec Profile) :=
  [(ofAscii "registry",.focus registry (fun z a => { z with registry := a }) (.string none)),
    (ofAscii "repository",.focus repository (fun z a => { z with repository := a }) (.string none)),
    (ofAscii "endpoint",.focus endpoint (fun z a => { z with endpoint := a }) (.string none)),
    (ofAscii "network_mode",.focus networkMode (fun z a => { z with networkMode := a }) (.string none)),
    (ofAscii "runtime-path",.focus runtimePath (fun z a => { z with runtimePath := a }) (.string none)),
    (ofAscii "cwd",.focus cwd (fun z a => { z with cwd := a }) (.string none)),
    (ofAscii "resources",.focus resources (fun z a => { z with resources := a }) Resources.codec),
    (ofAscii "tmpfs",.focus tmpfs (fun z a => { z with tmpfs := a }) (.strMap none)),
    (ofAscii "binds",.focus binds (fun z a => { z with binds := a }) (.slice none (.string none) []))]

def Profile.codec : Codec Profile := .struct none fields

theorem Resources.of_pairs {kvs : List (Value × Value)} {z z' : Resources} (h : fieldsMeaning none fields kvs z = .ok z') :
    z' = { memory := lastOf Value.asNumber (sent (ofAscii "memory") kvs) z.memory
           cpuShares := lastOf Value.asNumber (sent (ofAscii "CpuShares") kvs) z.cpuShares
           cpuPeriod := lastOf Value.asNumber (sent (ofAscii "CpuPeriod") kvs) z.cpuPeriod
           cpuQuota := lastOf Value.asNumber (sent (ofAscii "CpuQuota") kvs) z.cpuQuota
           cpusetCpus := lastOf Value.asStr (sent (ofAscii "CpusetCpus") kvs) z.cpusetCpus
           cpusetMems := lastOf Value.asStr (sent (ofAscii "CpusetMems") kvs) z.cpusetMems } := by
  ext1
  · exact Codec.field_last memory rfl (fun _ _ => rfl) (by simp [fields, Codec.keeps_focus]) Codec.ok_of_fresh h
  · exact Codec.field_last cpuShares rfl (fun _ _ => rfl) (by simp [fields, Codec.keeps_focus]) Codec.ok_of_fresh h
  · exact Codec.field_last cpuPeriod rfl (fun _ _ => rfl) (by simp [fields, Codec.keeps_focus]) Codec.ok_of_fresh h
  · exact Codec.field_last cpuQuota rfl (fun _ _ => rfl) (by simp [fields, Codec.keeps_focus]) Codec.ok_of_fresh h
  · exact Codec.field_last cpusetCpus rfl (fun _ _ => rfl) (by simp [fields, Codec.keeps_focus]) Codec.ok_of_fresh h
  · exact Codec.field_last cpusetMems rfl (fun _ _ => rfl) (by simp [fields, Codec.keeps_focus]) Codec.ok_of_fresh h

/-- What `Int` makes of the number that is sent last, nought if none is. -/
def limitOf (key : String) (kvs : List (Value × Value)) : ℤ := signed 8 (lastOf Value.asNumber (sent (ofAscii key) kvs) 0)

/-- The profile with its strings as texts and its numbers by `Int`. -/
def Profile.plain (z : Profile) : Docker.Profile :=
  { registry := byteText z.registry
    networkMode := byteText z.networkMode
    runtimePath := byteText z.runtimePath
    cwd := byteText z.cwd
    resources :=
      { memory := signed 8 z.resources.memory
        cpuShares := signed 8 z.resources.cpuShares
        cpuPeriod := signed 8 z.resources.cpuPeriod
        cpuQuota := signed 8 z.resources.cpuQuota
        cpusetCpus := byteText z.resources.cpusetCpus
        cpusetMems := byteText z.resources.cpusetMems }
    tmpfs := textMap z.tmpfs
    binds := z.binds.elems.map byteText }

/-- The profile that decoding starts from; what `Spawn` does not read is empty. -/
def Profile.start (p : Docker.Profile) : Profile :=
  { registry := ofAscii p.registry
    repository := []
    endpoint := []
    networkMode := ofAscii p.networkMode
    runtimePath := ofAscii p.runtimePath
    cwd := ofAscii p.cwd
    resources :=
      { memory := (p.resources.memory % 256 ^ 8).toNat
        cpuShares := (p.resources.cpuShares % 256 ^ 8).toNat
        cpuPeriod := (p.resources.cpuPeriod % 256 ^ 8).toNat
        cpuQuota := (p.resources.cpuQuota % 256 ^ 8).toNat
        cpusetCpus := ofAscii p.resources.cpusetCpus
        cpusetMems := ofAscii p.resources.cpusetMems }
    tmpfs := p.tmpfs.toList.foldl (fun acc q => acc.insert (ofAscii q.1) (ofAscii q.2)) ∅
    binds := ⟨p.binds.map ofAscii,[]⟩ }

end Wire

open Wire

def decodeTo (raw : Bytes) (p : Profile) : Except String Profile :=
  match (RawProfile.mk (some raw)).decodeTo Wire.Profile.codec (.start p) with
  | (.ok z,_) => .ok z.plain
  | (.error e,_) => .error e.text

def profileOf (kvs : List (Value × Value)) : Profile :=
  { registry := textOf "registry" kvs ""
    networkMode := textOf "network_mode" kvs "bridge"
    runtimePath := textOf "runtime-path" kvs defaultRuntimePath
    cwd := textOf "cwd" kvs ""
    resources :=
      let limits := pairsOf (sent (ofAscii "resources") kvs)
      { memory := limitOf "memory" limits
        cpuShares := limitOf "CpuShares" limits
        cpuPeriod := limitOf "CpuPeriod" limits
        cpuQuota := limitOf "CpuQuota" limits
        cpusetCpus := textOf "CpusetCpus" limits ""
        cpusetMems := textOf "CpusetMems" limits "" }
    tmpfs := textMapOf "tmpfs" kvs
    binds := textsOf "binds" kvs }

namespace Wire

theorem Profile.of_pairs {kvs : List (Value × Value)} {z : Profile}
    (h : fieldsMeaning none fields kvs (.start defaultProfile) = .ok z) : z.plain = profileOf kvs := by
  have hregistry : byteText z.registry = textOf "registry" kvs "" :=
    textOf_field registry rfl (fun _ _ => rfl) (by simp [fields, Codec.keeps_focus]) h
  have hmode : byteText z.networkMode = textOf "network_mode" kvs "bridge" :=
    textOf_field networkMode rfl (fun _ _ => rfl) (by simp [fields, Codec.keeps_focus]) h
  have hpath : byteText z.runtimePath = textOf "runtime-path" kvs defaultRuntimePath :=
    textOf_field runtimePath rfl (fun _ _ => rfl) (by simp [fields, Codec.keeps_focus]) h
  have hcwd : byteText z.cwd = textOf "cwd" kvs "" :=
    textOf_field cwd rfl (fun _ _ => rfl) (by simp [fields, Codec.keeps_focus]) h
  have htmpfs : textMap z.tmpfs = textMapOf "tmpfs" kvs :=
    textMapOf_field tmpfs rfl (fun _ _ => rfl) (by simp [fields, Codec.keeps_focus]) rfl h
  have hbinds : z.binds.elems.map byteText = textsOf "binds" kvs :=
    textsOf_field binds rfl (fun _ _ => rfl) (by simp [fields, Codec.keeps_focus]) rfl h
  have hresources : Resources.codec.after (sent (ofAscii "resources") kvs) ⟨0,0,0,0,[],[]⟩ = .ok z.resources :=
    Codec.fieldsMeaning_get resources rfl (fun _ _ => rfl) (by simp [fields, Codec.keeps_focus]) h
  have hlimits := Resources.of_pairs (Codec.after_struct hresources)
  simp only [plain, profileOf, limitOf, hregistry, hmode, hpath, hcwd, htmpfs, hbinds, hlimits, Isolate.byteText_lastOf]
  rfl

def Profile.fits (kvs : List (Value × Value)) : Bool := kvs.all (pairFits fields)

end Wire

/-- What the profile of a request becomes depends on the pairs that were sent, and not on how
they are encoded: a pair that does not fit makes it fail, otherwise each field is what was
sent last under its key. -/
theorem decodeTo_of_pairs {kvs : List (Value × Value)} {raw : Bytes} (h : Encodes (.map kvs) raw) (hn : (Value.map kvs).NoExt) :
    (Wire.Profile.fits kvs = true → decodeTo raw defaultProfile = .ok (profileOf kvs)) ∧
      (Wire.Profile.fits kvs = false → ∃ text, decodeTo raw defaultProfile = .error text) := by
  have hok : (fieldsMeaning none Wire.Profile.fields kvs (.start defaultProfile)).isOk = Wire.Profile.fits kvs :=
    isOk_fieldsMeaning ..
  rcases RawProfile.decodeTo_of_value h hn Wire.Profile.codec (.start defaultProfile) with ⟨z,hm,hd⟩ | ⟨f,e,hm,hd,-⟩
  · change fieldsMeaning none Wire.Profile.fields kvs (.start defaultProfile) = .ok z at hm
    rw [decodeTo, hd, ← hok, hm]
    exact ⟨fun _ => congrArg Except.ok (Wire.Profile.of_pairs hm),fun hf => Bool.noConfusion hf⟩
  · change fieldsMeaning none Wire.Profile.fields kvs (.start defaultProfile) = .error f at hm
    rw [decodeTo, hd, ← hok, hm]
    exact ⟨fun hf => Bool.noConfusion hf,fun _ => ⟨_,rfl⟩⟩

/-! ## From the request to Docker -/

section Creating
variable {o : Outside} {config : SpawnConfig} {profile : Profile} {w : World}

theorem createAndStart_calls {id : String} {c : Config} {hc : HostConfig}
    (h : .containerCreate id c hc ∈ callsSince w (createAndStart o config profile w).2) :
    c = containerConfig o profile config.name config.executable config.args config.env ∧ hc = hostConfig profile config.args := by
  cases hcreate : o.containerCreate with
  | error e =>
    rw [createAndStart_of_create_error hcreate, callsSince, List.drop_length] at h
    cases h
  | ok id' =>
    rw [createAndStart_of_created hcreate] at h
    cases hs : o.containerStart with
    | none =>
      rw [hs] at h
      simp [callsSince, World.created, record, Prog.modify] at h
      exact h.2
    | some e =>
      rw [hs] at h
      simp [callsSince, World.created, record, Prog.modify] at h
      exact h.2

theorem spawn_calls (hd : config.decodeTo defaultProfile = .ok profile) {id : String} {c : Config} {hc : HostConfig}
    (h : .containerCreate id c hc ∈ callsSince w (spawn o config w).2) :
    c = containerConfig o profile config.name config.executable config.args config.env ∧ hc = hostConfig profile config.args := by
  rw [spawn_of_decoded hd] at h
  split at h
  · rw [callsSince, List.drop_length] at h
    cases h
  · cases ha : o.acquire with
    | some e =>
      rw [ha] at h
      rw [callsSince, List.drop_length] at h
      cases h
    | none =>
      rw [ha] at h
      exact createAndStart_calls (w := { w with spawningQueueSize := w.spawningQueueSize + 1 + -1, spawnSM := w.spawnSM + 1 }) h

theorem creates_of_decoded (hd : config.decodeTo defaultProfile = .ok profile) (hq : w.spawningQueueSize < 10)
    (ha : o.acquire = none) {id : String} (hc : o.containerCreate = .ok id) :
    .containerCreate id (containerConfig o profile config.name config.executable config.args config.env)
      (hostConfig profile config.args) ∈ callsSince w (spawn o config w).2 := by
  rw [spawn_of_decoded hd, if_neg (by omega), ha]
  dsimp only
  rw [Prog.defer, createAndStart_of_created hc]
  cases o.containerStart with
  | none => simp [callsSince, World.created, record, Prog.modify]
  | some e => simp [callsSince, World.created, record, Prog.modify]

end Creating

section Pairs
variable {kvs : List (Value × Value)} {raw : Bytes}

theorem creates_of_pairs (h : Encodes (.map kvs) raw) (hn : (Value.map kvs).NoExt) {o : Outside} {config : SpawnConfig}
    (hd : config.decodeTo = decodeTo raw) {w : World} {id : String} {c : Config} {hc : HostConfig}
    (hcall : .containerCreate id c hc ∈ callsSince w (spawn o config w).2) :
    Wire.Profile.fits kvs = true ∧
      c = containerConfig o (profileOf kvs) config.name config.executable config.args config.env ∧
        hc = hostConfig (profileOf kvs) config.args := by
  obtain ⟨hfit,hunfit⟩ := decodeTo_of_pairs h hn
  rw [← hd] at hfit hunfit
  cases hf : Wire.Profile.fits kvs with
  | false =>
    obtain ⟨text,ht⟩ := hunfit hf
    rw [spawn_of_decode_error ht, callsSince, List.drop_length] at hcall
    cases hcall
  | true => exact ⟨rfl,spawn_calls (hfit hf) hcall⟩

/-- What `Spawn` asks of Docker is determined by the pairs of the profile that was sent,
however they are encoded and whatever else the profile holds. A profile with a pair that does
not fit its field is refused, and nothing is asked; with another one `Spawn` does what it does
with the profile that its pairs describe. -/
theorem spawn_of_pairs (h : Encodes (.map kvs) raw) (hn : (Value.map kvs).NoExt) (o : Outside) (config : SpawnConfig)
    (hd : config.decodeTo = decodeTo raw) (w : World) :
    (Wire.Profile.fits kvs = false → ∃ text, spawn o config w = (.error (.decode text),w)) ∧
      (Wire.Profile.fits kvs = true → spawn o config w = spawn o { config with decodeTo := fun _ => .ok (profileOf kvs) } w) ∧
      ∀ id c hc, .containerCreate id c hc ∈ callsSince w (spawn o config w).2 →
        c = containerConfig o (profileOf kvs) config.name config.executable config.args config.env ∧
          hc = hostConfig (profileOf kvs) config.args := by
  refine ⟨?_,?_,?_⟩
  · intro hf
    obtain ⟨text,ht⟩ := (decodeTo_of_pairs h hn).2 hf
    rw [← hd] at ht
    exact ⟨text,spawn_of_decode_error ht⟩
  · intro hf
    have ht := (decodeTo_of_pairs h hn).1 hf
    rw [← hd] at ht
    have hdecode : decodeProfile config = decodeProfile { config with decodeTo := fun _ => .ok (profileOf kvs) } := by
      rw [decodeProfile, ht]
      rfl
    rw [spawn, hdecode]
    rfl
  · intro id c hc hcall
    exact (creates_of_pairs h hn hd hcall).2

/-- A directory, a limit that is a float, and a key that no field has. -/
def sampleKvs : List (Value × Value) :=
  [(.str (ofAscii "cwd"),.str (ofAscii "/a")),(.str (ofAscii "x"),.nil),
    (.bin (ofAscii "resources"),.map [(.str (ofAscii "memory"),.float64 [0x41,0xcd,0xcd,0x65,0,0,0,0])])]

def sampleRaw : Bytes :=
  [0x83] ++ (0xa3 :: ofAscii "cwd") ++ (0xd9 :: 2 :: ofAscii "/a") ++ (0xa1 :: ofAscii "x") ++ [0xc0] ++
    (0xc4 :: 9 :: ofAscii "resources") ++ [0x81] ++ (0xa6 :: ofAscii "memory") ++ [0xcb,0x41,0xcd,0xcd,0x65,0,0,0,0]

theorem sampleRaw_encodes : Encodes (.map sampleKvs) sampleRaw :=
  .map (h := [0x83]) (.fix (by decide)) (.cons (.str (h := [0xa3]) (.fix (by decide))) (.cons (.str (h := [0xd9,2]) (.wide8 (by decide)))
    (.cons (.str (h := [0xa1]) (.fix (by decide))) (.cons .nil (.cons (.bin (h := [0xc4,9]) (.wide8 (by decide)))
      (.single (.map (h := [0x81]) (.fix (by decide)) (.cons (.str (h := [0xa6]) (.fix (by decide))) (.single (.float64 rfl))))))))))

theorem sampleKvs_noExt : (Value.map sampleKvs).NoExt := by
  refine .map fun v hv => ?_
  simp only [sampleKvs, flatten_cons, List.mem_cons] at hv
  rcases hv with rfl | rfl | rfl | rfl | rfl | rfl | hv
  · exact .str _
  · exact .str _
  · exact .str _
  · exact .nil
  · exact .bin _
  · refine .map fun v hv => ?_
    simp only [flatten_cons, List.mem_cons] at hv
    rcases hv with rfl | rfl | hv
    · exact .str _
    · exact .float64 _
    · cases hv
  · cases hv

/-- Docker is asked for a container in the directory of the profile, with a limit that is not
`10 ^ 9`. -/
theorem spawn_of_pairs_sample :
    let o : Outside := ⟨none,.ok "c1",none,[],[]⟩
    let config : SpawnConfig := ⟨decodeTo sampleRaw,"app","/app/run",∅,∅⟩
    ∃ c hc, .containerCreate "c1" c hc ∈ callsSince ⟨0,0,∅,[]⟩ (spawn o config ⟨0,0,∅,[]⟩).2 ∧
      c.workingDir = "/a" ∧ hc.networkMode = "bridge" ∧ hc.resources.memory = 4741671816366391296 := by
  intro o config
  have hspawn := (spawn_of_pairs sampleRaw_encodes sampleKvs_noExt o config rfl ⟨0,0,∅,[]⟩).2.1 (by decide)
  rw [hspawn]
  have hdecoded : ({ config with decodeTo := fun _ => .ok (profileOf sampleKvs) } : SpawnConfig).decodeTo defaultProfile =
      .ok (profileOf sampleKvs) := rfl
  exact ⟨_,_,creates_of_decoded hdecoded (by decide) rfl rfl,by decide,by decide,by decide⟩

end Pairs

end Stout.Docker
