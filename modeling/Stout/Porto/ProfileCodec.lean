import Stout.Isolate.RawProfile
import Stout.Porto.Layers
import Stout.Porto.Spawn

/-! # The profile of a porto container on the wire

`DecodeMsg` of `Profile`, `VolumeProfile`, `ExtendedInfo` and `Layer` in
`porto/profile_decodable.go`, and what `Spawn` and `Spool` make of the profile. The elements
of a slice that is sent again are decoded into those of the array that is there, so that an
element has what its place was given before.
-/
namespace Stout.Porto
open Msgpack
open Isolate (RawProfile getElem?_textMap textOf textMap textMapOf textsOf textOf_field textMapOf_field textsOf_field)
open Json (ofAscii)

namespace Wire

structure Layer where
  digest : Bytes
  digestType : Bytes
  size : ℕ
  torrentId : Bytes

structure VolumeProfile where
  target : Bytes
  properties : StrMap

structure ExtendedInfo where
  layers : Slice Layer

structure Profile where
  registry : Bytes
  repository : Bytes
  networkMode : Bytes
  network : StrMap
  extendedInfo : ExtendedInfo
  cwd : Bytes
  binds : Slice Bytes
  container : StrMap
  volume : StrMap
  extraVolumes : Slice VolumeProfile

def Layer.zero : Layer := ⟨[],[],0,[]⟩

def VolumeProfile.zero : VolumeProfile := ⟨[],∅⟩

def Profile.zero : Profile := ⟨[],[],[],∅,⟨⟨[],[]⟩⟩,[],⟨[],[]⟩,∅,∅,⟨[],[]⟩⟩

def Layer.fields : List (Bytes × Codec Layer) :=
  [(ofAscii "digest",.focus digest (fun z a => { z with digest := a }) (.string (some [.field "Digest"]))),
    (ofAscii "digest_type",.focus digestType (fun z a => { z with digestType := a }) (.string (some [.field "DigestType"]))),
    (ofAscii "size",.focus size (fun z a => { z with size := a }) (.uint (some [.field "Size"]))),
    (ofAscii "torrent_id",.focus torrentId (fun z a => { z with torrentId := a }) (.string (some [.field "TorrentId"])))]

def Layer.codec : Codec Layer := .struct (some []) fields

def VolumeProfile.fields : List (Bytes × Codec VolumeProfile) :=
  [(ofAscii "target",.focus target (fun z a => { z with target := a }) (.string (some [.field "Target"]))),
    (ofAscii "properties",.focus properties (fun z a => { z with properties := a }) (.strMap (some [.field "Properties"])))]

def VolumeProfile.codec : Codec VolumeProfile := .struct (some []) fields

def ExtendedInfo.fields (p : Path) : List (Bytes × Codec ExtendedInfo) :=
  [(ofAscii "layers",
    .focus layers (fun z a => { z with layers := a }) (.slice (some (p ++ [.field "Layers"])) Layer.codec .zero))]

/-- `DecodeMsg` of `ExtendedInfo`; in that of `Profile` it is written out, with its path. -/
def ExtendedInfo.codec (p : Path) : Codec ExtendedInfo := .struct (some p) (fields p)

/-- Each field with the name that its errors have. -/
def Profile.named : List (Bytes × String × Codec Profile) :=
  [(ofAscii "registry","Registry",
      .focus registry (fun z a => { z with registry := a }) (.string (some [.field "Registry"]))),
    (ofAscii "repository","Repository",
      .focus repository (fun z a => { z with repository := a }) (.string (some [.field "Repository"]))),
    (ofAscii "network_mode","NetworkMode",
      .focus networkMode (fun z a => { z with networkMode := a }) (.string (some [.field "NetworkMode"]))),
    (ofAscii "network","Network",
      .focus network (fun z a => { z with network := a }) (.strMap (some [.field "Network"]))),
    (ofAscii "extended_info","ExtendedInfo",
      .focus extendedInfo (fun z a => { z with extendedInfo := a }) (ExtendedInfo.codec [.field "ExtendedInfo"])),
    (ofAscii "cwd","Cwd",
      .focus cwd (fun z a => { z with cwd := a }) (.string (some [.field "Cwd"]))),
    (ofAscii "binds","Binds",
      .focus binds (fun z a => { z with binds := a }) (.slice (some [.field "Binds"]) (.string none) [])),
    (ofAscii "container","Container",
      .focus container (fun z a => { z with container := a }) (.strMap (some [.field "Container"]))),
    (ofAscii "volume","Volume",
      .focus volume (fun z a => { z with volume := a }) (.strMap (some [.field "Volume"]))),
    (ofAscii "extravolumes","ExtraVolumes",
      .focus extraVolumes (fun z a => { z with extraVolumes := a })
        (.slice (some [.field "ExtraVolumes"]) VolumeProfile.codec .zero))]

def Profile.fields : List (Bytes × Codec Profile) := named.map fun f => (f.1,f.2.2)

def Profile.codec : Codec Profile := .struct (some []) fields

def Profile.fits (kvs : List (Value × Value)) : Bool := kvs.all (pairFits fields)

def Layer.plain (z : Layer) : Layers.Layer :=
  ⟨byteText z.digest,byteText z.digestType,z.size,byteText z.torrentId⟩

def VolumeProfile.plain (z : VolumeProfile) : Porto.VolumeProfile := ⟨byteText z.target,textMap z.properties⟩

/-- What `Spawn` reads of the profile. -/
def Profile.plain (z : Profile) : Porto.Profile :=
  { registry := byteText z.registry
    networkMode := byteText z.networkMode
    network := textMap z.network
    cwd := byteText z.cwd
    binds := z.binds.elems.map byteText
    container := textMap z.container
    volume := textMap z.volume
    extraVolumes := z.extraVolumes.elems.map VolumeProfile.plain }

/-- What `Spool` reads of the profile. -/
def Profile.spool (z : Profile) : Layers.SpoolProfile :=
  { registry := byteText z.registry
    repository := byteText z.repository
    network := textMap z.network
    layers := z.extendedInfo.layers.elems.map Layer.plain }

end Wire

open Wire

def decodeTo (raw : Bytes) : Except String Wire.Profile :=
  match (RawProfile.mk (some raw)).decodeTo Wire.Profile.codec .zero with
  | (.ok z,_) => .ok z
  | (.error e,_) => .error e.text

/-- `Spool`: nothing is done if the profile cannot be decoded. -/
def spoolRaw (o : Layers.Outside) (b : Layers.SpoolConfig) (name : String) (raw : Bytes) : Except String (Layers.Run Unit) :=
  (decodeTo raw).map fun z => Layers.spool o b name z.spool

/-! ## What the pairs describe -/

def volumeOf (kvs : List (Value × Value)) : VolumeProfile := ⟨textOf "target" kvs "",textMapOf "properties" kvs⟩

def layerOf (kvs : List (Value × Value)) : Layers.Layer :=
  { digest := textOf "digest" kvs ""
    digestType := textOf "digest_type" kvs ""
    size := lastOf Value.asUint (sent (ofAscii "size") kvs) 0
    torrentId := textOf "torrent_id" kvs "" }

/-- An extra volume is described by the pairs that were sent at its place since the array behind
the slice was made. -/
def profileOf (kvs : List (Value × Value)) : Profile :=
  { registry := textOf "registry" kvs ""
    networkMode := textOf "network_mode" kvs ""
    network := textMapOf "network" kvs
    cwd := textOf "cwd" kvs ""
    binds := textsOf "binds" kvs
    container := textMapOf "container" kvs
    volume := textMapOf "volume" kvs
    extraVolumes := placesOf (volumeOf ∘ pairsOf) (arraysOf (sent (ofAscii "extravolumes") kvs)) }

def spoolOf (kvs : List (Value × Value)) : Layers.SpoolProfile :=
  { registry := textOf "registry" kvs ""
    repository := textOf "repository" kvs ""
    network := textMapOf "network" kvs
    layers := placesOf (layerOf ∘ pairsOf) (arraysOf (sent (ofAscii "layers") (pairsOf (sent (ofAscii "extended_info") kvs)))) }

namespace Wire

theorem VolumeProfile.of_values {vs : List Value} {z : VolumeProfile} (h : codec.after vs .zero = .ok z) :
    z.plain = volumeOf (pairsOf vs) := by
  have hpairs := Codec.after_struct h
  have htarget : byteText z.target = textOf "target" (pairsOf vs) "" :=
    textOf_field target rfl (fun _ _ => rfl) (by simp [fields, Codec.keeps_focus]) hpairs
  have hproperties : textMap z.properties = textMapOf "properties" (pairsOf vs) :=
    textMapOf_field properties rfl (fun _ _ => rfl) (by simp [fields, Codec.keeps_focus]) rfl hpairs
  rw [plain, volumeOf, htarget, hproperties]

theorem Layer.of_values {vs : List Value} {z : Layer} (h : codec.after vs .zero = .ok z) : z.plain = layerOf (pairsOf vs) := by
  have hpairs := Codec.after_struct h
  have hsize : z.size = lastOf Value.asUint (sent (ofAscii "size") (pairsOf vs)) 0 :=
    Codec.field_last size rfl (fun _ _ => rfl) (by simp [fields, Codec.keeps_focus]) Codec.ok_of_fresh hpairs
  have hdigest : byteText z.digest = textOf "digest" (pairsOf vs) "" :=
    textOf_field digest rfl (fun _ _ => rfl) (by simp [fields, Codec.keeps_focus]) hpairs
  have htype : byteText z.digestType = textOf "digest_type" (pairsOf vs) "" :=
    textOf_field digestType rfl (fun _ _ => rfl) (by simp [fields, Codec.keeps_focus]) hpairs
  have htorrent : byteText z.torrentId = textOf "torrent_id" (pairsOf vs) "" :=
    textOf_field torrentId rfl (fun _ _ => rfl) (by simp [fields, Codec.keeps_focus]) hpairs
  rw [plain, layerOf, hdigest, htype, hsize, htorrent]

section Pairs
variable {kvs : List (Value × Value)} {z : Profile}

theorem Profile.strings_of_pairs (h : fieldsMeaning (some []) fields kvs .zero = .ok z) :
    byteText z.registry = textOf "registry" kvs "" ∧ byteText z.repository = textOf "repository" kvs "" ∧
      byteText z.networkMode = textOf "network_mode" kvs "" ∧ byteText z.cwd = textOf "cwd" kvs "" :=
  ⟨textOf_field registry rfl (fun _ _ => rfl) (by simp [fields, named, Codec.keeps_focus]) h,
    textOf_field repository rfl (fun _ _ => rfl) (by simp [fields, named, Codec.keeps_focus]) h,
    textOf_field networkMode rfl (fun _ _ => rfl) (by simp [fields, named, Codec.keeps_focus]) h,
    textOf_field cwd rfl (fun _ _ => rfl) (by simp [fields, named, Codec.keeps_focus]) h⟩

theorem Profile.maps_of_pairs (h : fieldsMeaning (some []) fields kvs .zero = .ok z) :
    textMap z.network = textMapOf "network" kvs ∧ textMap z.container = textMapOf "container" kvs ∧
      textMap z.volume = textMapOf "volume" kvs :=
  ⟨textMapOf_field network rfl (fun _ _ => rfl) (by simp [fields, named, Codec.keeps_focus]) rfl h,
    textMapOf_field container rfl (fun _ _ => rfl) (by simp [fields, named, Codec.keeps_focus]) rfl h,
    textMapOf_field volume rfl (fun _ _ => rfl) (by simp [fields, named, Codec.keeps_focus]) rfl h⟩

theorem Profile.volumes_of_pairs (h : fieldsMeaning (some []) fields kvs .zero = .ok z) :
    z.extraVolumes.elems.map VolumeProfile.plain =
      placesOf (volumeOf ∘ pairsOf) (arraysOf (sent (ofAscii "extravolumes") kvs)) := by
  have hslice : (Codec.slice (some [.field "ExtraVolumes"]) VolumeProfile.codec .zero).after
      (sent (ofAscii "extravolumes") kvs) ⟨[],[]⟩ = .ok z.extraVolumes :=
    Codec.fieldsMeaning_get extraVolumes rfl (fun _ _ => rfl) (by simp [fields, named, Codec.keeps_focus]) h
  exact (Codec.after_slice hslice).map_elems fun _ _ => VolumeProfile.of_values

theorem Profile.layers_of_pairs (h : fieldsMeaning (some []) fields kvs .zero = .ok z) :
    z.extendedInfo.layers.elems.map Layer.plain =
      placesOf (layerOf ∘ pairsOf) (arraysOf (sent (ofAscii "layers") (pairsOf (sent (ofAscii "extended_info") kvs)))) := by
  have hinfo : (ExtendedInfo.codec [.field "ExtendedInfo"]).after (sent (ofAscii "extended_info") kvs) ⟨⟨[],[]⟩⟩ =
      .ok z.extendedInfo :=
    Codec.fieldsMeaning_get extendedInfo rfl (fun _ _ => rfl) (by simp [fields, named, Codec.keeps_focus]) h
  have hslice : (Codec.slice (some [.field "ExtendedInfo",.field "Layers"]) Layer.codec .zero).after
      (sent (ofAscii "layers") (pairsOf (sent (ofAscii "extended_info") kvs))) ⟨[],[]⟩ = .ok z.extendedInfo.layers :=
    Codec.fieldsMeaning_get ExtendedInfo.layers rfl (fun _ _ => rfl) (by simp [ExtendedInfo.fields])
      (Codec.after_struct hinfo)
  exact (Codec.after_slice hslice).map_elems fun _ _ => Layer.of_values

theorem Profile.of_pairs (h : fieldsMeaning (some []) fields kvs .zero = .ok z) :
    z.plain = profileOf kvs ∧ z.spool = spoolOf kvs := by
  obtain ⟨hregistry,hrepository,hmode,hcwd⟩ := strings_of_pairs h
  obtain ⟨hnetwork,hcontainer,hvolume⟩ := maps_of_pairs h
  have hbinds : z.binds.elems.map byteText = textsOf "binds" kvs :=
    textsOf_field binds rfl (fun _ _ => rfl) (by simp [fields, named, Codec.keeps_focus]) rfl h
  constructor
  · simp only [plain, profileOf, hregistry, hmode, hcwd, hnetwork, hcontainer, hvolume, hbinds, volumes_of_pairs h]
  · simp only [spool, spoolOf, hregistry, hrepository, hnetwork, layers_of_pairs h]

end Pairs

end Wire

section Requests
variable {kvs : List (Value × Value)} {raw : Bytes}

theorem decodeTo_cases (h : Encodes (.map kvs) raw) (hn : (Value.map kvs).NoExt) :
    (Wire.Profile.fits kvs = true ∧ ∃ z, decodeTo raw = .ok z ∧ z.plain = profileOf kvs ∧ z.spool = spoolOf kvs) ∨
      (Wire.Profile.fits kvs = false ∧ ∃ f e, fieldsMeaning (some []) Wire.Profile.fields kvs .zero = .error f ∧
        decodeTo raw = .error (Located.text e) ∧ e.fault = f) := by
  have hok : (fieldsMeaning (some []) Wire.Profile.fields kvs .zero).isOk = Wire.Profile.fits kvs := isOk_fieldsMeaning ..
  rcases RawProfile.decodeTo_of_value h hn Wire.Profile.codec .zero with ⟨z,hm,hd⟩ | ⟨f,e,hm,hd,he⟩
  · change fieldsMeaning (some []) Wire.Profile.fields kvs .zero = .ok z at hm
    rw [hm] at hok
    exact Or.inl ⟨hok.symm,z,by delta decodeTo; rw [hd],Wire.Profile.of_pairs hm⟩
  · change fieldsMeaning (some []) Wire.Profile.fields kvs .zero = .error f at hm
    refine Or.inr ⟨?_,f,e,hm,by delta decodeTo; rw [hd]; rfl,he⟩
    rw [← hok, hm]
    rfl

theorem spawn_of_refused {text : String} (h : decodeTo raw = .error text) {o : SpawnOutside} {b : BoxConfig}
    {config : SpawnConfig} {s : BoxState} (hopts : config.opts = (decodeTo raw).map Wire.Profile.plain) :
    spawn o b config s = (.error (.decode text),s) := by
  rw [h] at hopts
  cases config with
  | mk opts name executable args env =>
    obtain rfl : opts = .error text := hopts
    rfl

/-- What the box does with a request is determined by the pairs of the profile. -/
theorem requests_of_pairs (h : Encodes (.map kvs) raw) (hn : (Value.map kvs).NoExt) :
    (Wire.Profile.fits kvs = true →
      (∀ o b config, config.opts = (decodeTo raw).map Wire.Profile.plain →
        spawn o b config = spawn o b { config with opts := .ok (profileOf kvs) }) ∧
          ∀ o b name, spoolRaw o b name raw = .ok (Layers.spool o b name (spoolOf kvs))) ∧
      (Wire.Profile.fits kvs = false → ∃ text,
        (∀ o b config s, config.opts = (decodeTo raw).map Wire.Profile.plain →
          spawn o b config s = (.error (.decode text),s)) ∧
            ∀ o b name, spoolRaw o b name raw = .error text) := by
  rcases decodeTo_cases h hn with ⟨hf,z,hz,hplain,hspool⟩ | ⟨hf,f,e,-,he,-⟩
  · refine ⟨fun _ => ⟨?_,?_⟩,fun hf' => absurd hf (by simp [hf'])⟩
    · intro o b config hopts
      rw [hz] at hopts
      cases config with
      | mk opts name executable args env =>
        obtain rfl : opts = .ok z.plain := hopts
        exact congrArg (fun p => spawn o b ⟨.ok p,name,executable,args,env⟩) hplain
    · intro o b name
      rw [spoolRaw, hz, ← hspool]
      rfl
  · refine ⟨fun hf' => absurd hf (by simp [hf']),fun _ => ⟨e.text,?_,?_⟩⟩
    · exact fun o b config s hopts => spawn_of_refused he hopts
    · intro o b name
      rw [spoolRaw, he]
      rfl

/-- A volume whose second half is sent with the key again, and two properties whose keys are
no texts. -/
def resentKvs : List (Value × Value) :=
  [(.str (ofAscii "extravolumes"),.array [.map [(.str (ofAscii "target"),.str (ofAscii "/a"))]]),
    (.str (ofAscii "extravolumes"),.array [.map [(.str (ofAscii "properties"),.map [])]]),
    (.str (ofAscii "container"),.map [(.str [0xff],.str (ofAscii "1")),(.str [0xfe],.str (ofAscii "2"))])]

def resentRaw : Bytes :=
  [0x83] ++ (0xac :: ofAscii "extravolumes") ++ [0x91,0x81] ++ (0xa6 :: ofAscii "target") ++ (0xa2 :: ofAscii "/a") ++
    (0xac :: ofAscii "extravolumes") ++ [0x91,0x81] ++ (0xaa :: ofAscii "properties") ++ [0x80] ++
    (0xa9 :: ofAscii "container") ++ [0x82,0xa1,0xff] ++ (0xa1 :: ofAscii "1") ++ [0xa1,0xfe] ++ (0xa1 :: ofAscii "2")

theorem resentRaw_encodes : Encodes (.map resentKvs) resentRaw := by
  have hfirst : Encodes (.map [(.str (ofAscii "target"),.str (ofAscii "/a"))])
      ([0x81] ++ ((0xa6 :: ofAscii "target") ++ (0xa2 :: ofAscii "/a"))) :=
    .map (h := [0x81]) (.fix (by decide))
      (.cons (.str (h := [0xa6]) (.fix (by decide))) (.single (.str (h := [0xa2]) (.fix (by decide)))))
  have hsecond : Encodes (.map [(.str (ofAscii "properties"),.map [])]) ([0x81] ++ ((0xaa :: ofAscii "properties") ++ [0x80])) :=
    .map (h := [0x81]) (.fix (by decide)) (.cons (.str (h := [0xaa]) (.fix (by decide)))
      (.single (.map (h := [0x80]) (.fix (by decide)) (show EncodesAll (flatten []) [] from .nil))))
  have hthird : Encodes (.map [(.str [0xff],.str (ofAscii "1")),(.str [0xfe],.str (ofAscii "2"))])
      ([0x82] ++ ([0xa1,0xff] ++ ((0xa1 :: ofAscii "1") ++ ([0xa1,0xfe] ++ (0xa1 :: ofAscii "2"))))) :=
    .map (h := [0x82]) (.fix (by decide)) (.cons (.str (h := [0xa1]) (.fix (by decide)))
      (.cons (.str (h := [0xa1]) (.fix (by decide))) (.cons (.str (h := [0xa1]) (.fix (by decide)))
        (.single (.str (h := [0xa1]) (.fix (by decide)))))))
  exact .map (h := [0x83]) (.fix (by decide)) (.cons (.str (h := [0xac]) (.fix (by decide)))
    (.cons (.array (h := [0x91]) (.fix (by decide)) (.single hfirst)) (.cons (.str (h := [0xac]) (.fix (by decide)))
      (.cons (.array (h := [0x91]) (.fix (by decide)) (.single hsecond)) (.cons (.str (h := [0xa9]) (.fix (by decide)))
        (.single hthird))))))

theorem resentKvs_noExt : (Value.map resentKvs).NoExt := by
  have hfirst : (Value.map [(.str (ofAscii "target"),.str (ofAscii "/a"))]).NoExt :=
    .map (by simp [flatten, Value.NoExt.str])
  have hsecond : (Value.map [(.str (ofAscii "properties"),.map [])]).NoExt :=
    .map (by simp [flatten, Value.NoExt.str, Value.NoExt.map])
  have hthird : (Value.map [(.str [0xff],.str (ofAscii "1")),(.str [0xfe],.str (ofAscii "2"))]).NoExt :=
    .map (by simp [flatten, Value.NoExt.str])
  exact .map (by simp [resentKvs, flatten, Value.NoExt.str, Value.NoExt.array, hfirst, hsecond, hthird])

/-- The volume keeps the target it was sent with first, and each property has its value. -/
theorem requests_of_pairs_resent :
    (∀ o b, spawn o b ⟨(decodeTo resentRaw).map Wire.Profile.plain,"app","/app/run",∅,∅⟩ =
      spawn o b ⟨.ok (profileOf resentKvs),"app","/app/run",∅,∅⟩) ∧
        (profileOf resentKvs).extraVolumes.map VolumeProfile.target = ["/a"] ∧
        (profileOf resentKvs).container[byteText [0xff]]? = some "1" ∧
        (profileOf resentKvs).container[byteText [0xfe]]? = some "2" := by
  have hcontainer (k : Bytes) : (profileOf resentKvs).container[byteText k]? =
      (lastOf (strMapMeaning none) (sent (ofAscii "container") resentKvs) ∅)[k]?.map byteText := getElem?_textMap _ k
  have hfits : Wire.Profile.fits resentKvs = true := by decide +kernel
  refine ⟨fun o b => ?_,by decide +kernel,?_,?_⟩
  · have hspawn := ((requests_of_pairs resentRaw_encodes resentKvs_noExt).1 hfits).1 o b
    generalize (decodeTo resentRaw).map Wire.Profile.plain = opts at hspawn ⊢
    exact hspawn ⟨opts,"app","/app/run",∅,∅⟩ rfl
  · exact (hcontainer _).trans (by decide +kernel)
  · exact (hcontainer _).trans (by decide +kernel)

/-! ## Profiles that are refused -/

theorem Wire.Profile.names_named : ∀ f ∈ Wire.Profile.named, f.2.2.Names [.field f.2.1] := by
  have hinfo : (ExtendedInfo.codec [.field "ExtendedInfo"]).Names [.field "ExtendedInfo"] := by
    refine Codec.names_struct ?_
    simp only [ExtendedInfo.fields, List.mem_singleton, forall_eq]
    exact (Codec.names_focus Codec.names_slice).mono (List.prefix_append ..)
  simp only [named, List.mem_cons, List.not_mem_nil, or_false, forall_eq_or_imp, forall_eq]
  exact ⟨Codec.names_focus Codec.names_fresh,Codec.names_focus Codec.names_fresh,Codec.names_focus Codec.names_fresh,
    Codec.names_focus Codec.names_strMap,Codec.names_focus hinfo,Codec.names_focus Codec.names_fresh,
    Codec.names_focus Codec.names_slice,Codec.names_focus Codec.names_strMap,Codec.names_focus Codec.names_strMap,
    Codec.names_focus Codec.names_slice⟩

theorem Wire.Profile.lookup_fields {key : Bytes} {c : Codec Wire.Profile} (h : fields.lookup key = some c) :
    ∃ name, named.lookup key = some (name,c) ∧ c.Names [.field name] := by
  have hmap (l : List (Bytes × String × Codec Wire.Profile)) :
      (l.map fun f => (f.1,f.2.2)).lookup key = (l.lookup key).map Prod.snd := by
    induction l with
    | nil => rfl
    | cons f l ih =>
      obtain ⟨k,name,c⟩ := f
      simp only [List.map_cons, List.lookup_cons]
      cases key == k with
      | true => rfl
      | false => exact ih
  obtain ⟨⟨name,c'⟩,hl,rfl⟩ := Option.map_eq_some_iff.mp ((hmap named).symm.trans h)
  obtain ⟨l₁,l₂,he,-⟩ := List.lookup_eq_some_iff.mp hl
  exact ⟨name,hl,names_named (key,name,c') (by simp [he])⟩

/-- A profile that is refused is so for the first pair that does not fit, and the error names the
field of that pair, unless it is `ErrShortBytes`. -/
theorem refusal_names_field (h : Encodes (.map kvs) raw) (hn : (Value.map kvs).NoExt) (hf : Wire.Profile.fits kvs = false) :
    ∃ pre k v post e, kvs = pre ++ (k,v) :: post ∧ Wire.Profile.fits pre = true ∧
      pairFits Wire.Profile.fields (k,v) = false ∧
        (∀ o b config s, config.opts = (decodeTo raw).map Wire.Profile.plain →
          spawn o b config s = (.error (.decode (Located.text e)),s)) ∧
            ∀ key, k.asKey = .ok key → e.err = .shortBytes ∨
              ∃ name c rest, Wire.Profile.named.lookup key = some (name,c) ∧ e.path = .field name :: rest := by
  rcases decodeTo_cases h hn with ⟨hf',-⟩ | ⟨-,f,e,hm,he,hfault⟩
  · exact absurd hf (by simp [hf'])
  · obtain ⟨pre,k,v,post,hkvs,hpre,hbad,hpath⟩ := fieldsMeaning_error hm
    refine ⟨pre,k,v,post,e,hkvs,hpre,hbad,fun o b config s hopts => spawn_of_refused he hopts,?_⟩
    intro key hkey
    obtain ⟨c,z,hl,hc⟩ := hpath key hkey
    obtain ⟨name,hname,hnames⟩ := Wire.Profile.lookup_fields hl
    rcases Located.below_path (hfault ▸ hnames v z f hc) with hshort | ⟨rest,hrest⟩
    · exact Or.inl hshort
    · exact Or.inr ⟨name,c,rest,hname,hrest.symm⟩

def refusedKvs : List (Value × Value) := [(.str (ofAscii "cwd"),.nil)]

def refusedRaw : Bytes := 0x81 :: 0xa3 :: ofAscii "cwd" ++ [0xc0]

theorem refusal_names_field_cwd :
    ∃ e : Located,
      (∀ o b s, spawn o b ⟨(decodeTo refusedRaw).map Wire.Profile.plain,"app","/app/run",∅,∅⟩ s =
        (.error (.decode e.text),s)) ∧ (e.err = .shortBytes ∨ ∃ rest, e.path = .field "Cwd" :: rest) := by
  have henc : Encodes (.map refusedKvs) refusedRaw :=
    .map (h := [0x81]) (.fix (by decide)) (.cons (.str (h := [0xa3]) (.fix (by decide))) (.single .nil))
  have hnoext : (Value.map refusedKvs).NoExt := .map (by simp [refusedKvs, flatten, Value.NoExt.str, Value.NoExt.nil])
  obtain ⟨pre,k,v,post,e,hkvs,-,-,hspawn,hpath⟩ := refusal_names_field henc hnoext (by decide)
  obtain ⟨rfl,rfl⟩ : pre = [] ∧ k = .str (ofAscii "cwd") := by
    cases pre with
    | nil =>
      simp only [refusedKvs, List.nil_append, List.cons.injEq, Prod.mk.injEq] at hkvs
      exact ⟨rfl,hkvs.1.1.symm⟩
    | cons p pre => simp [refusedKvs] at hkvs
  refine ⟨e,fun o b s => hspawn o b _ s rfl,?_⟩
  rcases hpath (ofAscii "cwd") rfl with hshort | ⟨name,c,rest,hname,hrest⟩
  · exact Or.inl hshort
  · obtain ⟨rfl,-⟩ := Prod.mk.inj (Option.some.inj hname)
    exact Or.inr ⟨rest,hrest⟩

end Requests

end Stout.Porto
