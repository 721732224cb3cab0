import Stout.Library.Program
import Stout.Porto.Container

/-! # Spooling the layers of an image

`getLayersViaRegistry`, `getLayersViaDownloadHelper` and the part of `Spool` of
`porto/box.go` that calls them, with the orders of `porto/utils.go` and the manifests of
the journal. What the registry, the download helper, the file system and porto answer
comes from outside, one answer for each layer. A layer that porto has already counts as
imported.
-/
namespace Stout.Porto.Layers
open Paths (join joinAll)
open Prog

/-! ## The order of the layers -/

section Reversal
variable {α : Type}

/-- `slice[i], slice[j] = slice[j], slice[i]`. -/
def swap (slice : List α) (i j : ℕ) : List α :=
  match slice[i]?, slice[j]? with
  | some x, some y => (slice.set i y).set j x
  | _, _ => slice

/-- The first turns of the loop that swaps the ends. -/
def swapEnds (slice : List α) (turns : ℕ) : List α :=
  (List.range turns).foldl (fun slice' i => swap slice' i (slice.length - 1 - i)) slice

theorem swap_length (slice : List α) (i j : ℕ) : (swap slice i j).length = slice.length := by
  unfold swap
  split <;> simp

theorem swap_getElem? {slice : List α} {i j : ℕ} (hi : i < slice.length) (hj : j < slice.length) (p : ℕ) :
    (swap slice i j)[p]? = if p = j then slice[i]? else if p = i then slice[j]? else slice[p]? := by
  unfold swap
  simp only [List.getElem?_eq_getElem hi, List.getElem?_eq_getElem hj]
  rw [List.getElem?_set, List.getElem?_set, List.length_set]
  by_cases hpj : j = p
  · simp [hpj]
    omega
  · by_cases hpi : i = p
    · simp [hpj, hpi, Ne.symm hpj]
      omega
    · simp [hpj, hpi, Ne.symm hpj, Ne.symm hpi]

theorem swapEnds_getElem? (slice : List α) {turns : ℕ} (hturns : turns ≤ slice.length / 2) :
    (swapEnds slice turns).length = slice.length ∧ ∀ p < slice.length, (swapEnds slice turns)[p]? =
      if p < turns ∨ slice.length ≤ p + turns then slice[slice.length - 1 - p]? else slice[p]? := by
  induction turns with
  | zero =>
    refine ⟨rfl,fun p hp => ?_⟩
    rw [if_neg (by omega)]
    rfl
  | succ k ih =>
    obtain ⟨hlen,hget⟩ := ih (by omega)
    have hstep : swapEnds slice (k + 1) = swap (swapEnds slice k) k (slice.length - 1 - k) := by
      rw [swapEnds, List.range_succ, List.foldl_append]
      rfl
    rw [hstep]
    refine ⟨by rw [swap_length, hlen],fun p hp => ?_⟩
    rw [swap_getElem? (by omega) (by omega)]
    by_cases hpj : p = slice.length - 1 - k
    · rw [if_pos hpj, if_pos (by omega), hget k (by omega), if_neg (by omega)]
      congr 1
      omega
    · rw [if_neg hpj]
      by_cases hpk : p = k
      · rw [if_pos hpk, if_pos (by omega), hget _ (by omega), if_neg (by omega), hpk]
      · rw [if_neg hpk, hget p hp]
        refine if_congr ?_ rfl rfl
        omega

theorem swapEnds_eq_reverse (slice : List α) : swapEnds slice (slice.length / 2) = slice.reverse := by
  obtain ⟨hlen,hget⟩ := swapEnds_getElem? slice le_rfl
  refine List.ext_getElem? fun p => ?_
  by_cases hp : p < slice.length
  · rw [hget p hp, List.getElem?_reverse hp]
    split
    · rfl
    · congr 1
      omega
  · rw [List.getElem?_eq_none (by omega), List.getElem?_eq_none (by simp; omega)]

end Reversal

/-- A reference of a manifest; its media type and its size are not read. -/
structure Descriptor where
  digest : String
deriving DecidableEq, Repr

/-- `references` of both kinds of manifest: the layers of a `schema1.SignedManifest`
from the top, those of a `schema2.DeserializedManifest` from the base. -/
inductive Manifest where
  | schema1 (fsLayers : List String)
  | schema2 (layers : List Descriptor)
  | other (type : String)
deriving DecidableEq, Repr

def Manifest.references : Manifest → List Descriptor
  | .schema1 fsLayers => fsLayers.map Descriptor.mk
  | .schema2 layers => layers
  | .other _ => []

def layerOrderV1 (references : List Descriptor) : List Descriptor := references

def layerOrderV2 (references : List Descriptor) : List Descriptor := swapEnds references (references.length / 2)

/-! ## The calls -/

structure Layer where
  digest : String
  digestType : String
  size : ℕ
  torrentId : String
deriving DecidableEq, Repr

structure SpoolProfile where
  registry : String
  repository : String
  network : Map
  layers : List Layer

inductive ImportError where
  | layerAlreadyExists
  | porto (errno : ℕ)
  | other (err : String)
deriving DecidableEq, Repr

inductive LayersError where
  | emptyRegistry
  | failed (err : String)
  | unknownManifest (type : String)
  | importLayer (err : ImportError)
  | openLayer (blobPath : String)
  | copyLayer (blobPath : String)
  | hashMismatch (digest expected : String)
  | bindAllocs (netid err : String)
deriving DecidableEq, Repr

/-- What the calls are answered. The `i`-th layer is asked for with the number `i`. -/
structure Outside where
  parseNamed : String → Except String String
  newRepository : String → String → Option String
  tag : Option String
  manifests : Option String
  manifest : Except String Manifest
  portoConnect : Option String
  blob : ℕ → String → Except String String
  importLayer : ℕ → Option ImportError
  download : ℕ → List String → Option String
  openLayer : ℕ → Bool
  sha256 : ℕ → Option String
  bindAllocs : String → Option String

/-- The manifests of the journal and the calls of `ImportLayer`. -/
structure SpoolState where
  manifests : Map
  imports : List (String × String)

abbrev Run (α : Type) := Prog SpoolState LayersError α

def trying (err : Option String) : Run Unit :=
  match err with
  | some e => throw (.failed e)
  | none => pure ()

def answered {α : Type} (r : Except String α) : Run α :=
  match r with
  | .error e => throw (.failed e)
  | .ok a => pure a

def insertManifestLayers (manifest layers : String) : Run Unit :=
  modify fun s => { s with manifests := s.manifests.insert manifest layers }

def getManifestLayers (s : SpoolState) (manifest : String) : String := lookup s.manifests manifest

/-- `ImportLayer` of porto; that the layer is there already is no error. -/
def importLayer (o : Outside) (i : ℕ) (portoLayerName blobPath : String) : Run Unit := do
  modify fun s => { s with imports := s.imports ++ [(portoLayerName,blobPath)] }
  match o.importLayer i with
  | none | some .layerAlreadyExists => pure ()
  | some err => throw (.importLayer err)

/-- `strings.Replace(layerName, ":", "_", -1)`. -/
def portoLayerName (layerName : String) : String := layerName.map fun c => if c = ':' then '_' else c

/-- The loop of `getLayersViaRegistry`. -/
def importDescriptors (o : Outside) : ℕ → List Descriptor → List String → Run (List String)
  | _, [], layers => pure layers
  | i, descriptor :: rest, layers => do
    let layerName := descriptor.digest
    let blobPath ← answered (o.blob i layerName)
    importLayer o i (portoLayerName layerName) blobPath
    importDescriptors o (i + 1) rest (layers ++ [portoLayerName layerName])

def registryURL (registry : String) : String :=
  if "http".toList.isPrefixOf registry.toList then registry else "https://" ++ registry

def layersOrder : Manifest → Run (List Descriptor → List Descriptor)
  | .schema1 _ => pure layerOrderV1
  | .schema2 _ => pure layerOrderV2
  | .other type => throw (.unknownManifest type)

def getLayersViaRegistry (o : Outside) (name : String) (profile : SpoolProfile) : Run Unit :=
  if profile.registry = "" then throw .emptyRegistry
  else do
    let named ← answered (o.parseNamed (joinAll [profile.repository,profile.repository,name]))
    trying (o.newRepository named (registryURL profile.registry))
    trying o.tag
    trying o.manifests
    let manifest ← answered o.manifest
    let order ← layersOrder manifest
    trying o.portoConnect
    let layers ← importDescriptors o 0 (order manifest.references) []
    insertManifestLayers name (";".intercalate layers)

def Layer.portoLayerName (layer : Layer) : String := layer.digestType ++ "_" ++ layer.digest

/-- The arguments of the download helper: a minute for each hundred megabytes on top of five. -/
def Layer.helperArgs (dir : String) (layer : Layer) : List String :=
  ["get","-d",dir,"-t",toString (300 + 60 * (layer.size / (100 * 1024 * 1024))),layer.torrentId]

/-- The hash sum of what the helper has put at `blobPath` has to be the digest. -/
def checkHashSum (o : Outside) (i : ℕ) (layer : Layer) (blobPath : String) : Run Unit :=
  if o.openLayer i = false then throw (.openLayer blobPath)
  else match o.sha256 i with
    | none => throw (.copyLayer blobPath)
    | some digest => if digest ≠ layer.digest then throw (.hashMismatch digest layer.digest) else pure ()

/-- The loop of `getLayersViaDownloadHelper`. -/
def fetchLayers (o : Outside) (dir : String) : ℕ → List Layer → List String → Run (List String)
  | _, [], layers => pure layers
  | i, layer :: rest, layers => do
    trying (o.download i (layer.helperArgs dir))
    let blobPath := join dir layer.digest
    checkHashSum o i layer blobPath
    importLayer o i layer.portoLayerName blobPath
    fetchLayers o dir (i + 1) rest (layers ++ [layer.portoLayerName])

def getLayersViaDownloadHelper (o : Outside) (dir name : String) (profile : SpoolProfile) : Run Unit := do
  trying o.portoConnect
  let layers ← fetchLayers o dir 0 profile.layers []
  insertManifestLayers name (";".intercalate layers)

structure SpoolConfig where
  dhEnable : Bool
  dhfEnable : Bool
  layers : String
  mtnEnable : Bool

/-- `BindAllocs` for an application in an MTN network. -/
def bindAllocs (o : Outside) (b : SpoolConfig) (profile : SpoolProfile) : Run Unit :=
  if b.mtnEnable = true ∧ lookup profile.network "mtn" = "enable" then
    match o.bindAllocs (lookup profile.network "netid") with
    | some err => throw (.bindAllocs (lookup profile.network "netid") err)
    | none => pure ()
  else pure ()

/-- The download helper if there is one, then the registry. -/
def getLayers (o : Outside) (b : SpoolConfig) (name : String) (profile : SpoolProfile) : Run Unit :=
  if profile.layers ≠ [] ∧ b.dhEnable = true then do
    match ← attempt (getLayersViaDownloadHelper o b.layers name profile) with
    | .ok () => pure ()
    | .error errGet => if b.dhfEnable then getLayersViaRegistry o name profile else throw errGet
  else getLayersViaRegistry o name profile

/-- `Spool` once the profile is decoded. -/
def spool (o : Outside) (b : SpoolConfig) (name : String) (profile : SpoolProfile) : Run Unit := do
  getLayers o b name profile
  bindAllocs o b profile

/-! ## What is recorded -/

def SameManifests (s t : SpoolState) : Prop := t.manifests = s.manifests

instance : IsPreorder SpoolState SameManifests where
  refl _ := rfl
  trans _ _ _ h k := k.trans h

theorem trying_moves (err : Option String) : Moves SameManifests (trying err) := by
  cases err with
  | none => exact .pure _
  | some e => exact .throw _

theorem answered_moves {α : Type} (r : Except String α) : Moves SameManifests (answered r) := by
  cases r with
  | error e => exact .throw _
  | ok a => exact .pure _

theorem importLayer_moves (o : Outside) (i : ℕ) (portoLayerName blobPath : String) :
    Moves SameManifests (importLayer o i portoLayerName blobPath) := by
  refine .bind (.modify fun _ => rfl) fun _ => ?_
  split
  · exact .pure _
  · exact .pure _
  · exact .throw _

theorem importDescriptors_moves (o : Outside) (i : ℕ) (l : List Descriptor) (layers : List String) :
    Moves SameManifests (importDescriptors o i l layers) := by
  induction l generalizing i layers with
  | nil => exact .pure _
  | cons d rest ih =>
    exact .bind (answered_moves _) fun _ => .bind (importLayer_moves _ _ _ _) fun _ => ih _ _

theorem importDescriptors_ok {o : Outside} {i : ℕ} {l : List Descriptor} {layers names : List String} {s t : SpoolState}
    (h : importDescriptors o i l layers s = (.ok names,t)) :
    names = layers ++ l.map fun d => portoLayerName d.digest := by
  induction l generalizing i layers s with
  | nil =>
    cases h
    simp
  | cons d rest ih =>
    obtain ⟨_,_,-,h⟩ := of_bind_ok h
    obtain ⟨_,_,-,h⟩ := of_bind_ok h
    rw [ih h]
    simp

theorem checkHashSum_moves (o : Outside) (i : ℕ) (layer : Layer) (blobPath : String) :
    Moves SameManifests (checkHashSum o i layer blobPath) := by
  unfold checkHashSum
  split
  · exact .throw _
  · split
    · exact .throw _
    · split
      · exact .throw _
      · exact .pure _

theorem fetchLayers_moves (o : Outside) (dir : String) (i : ℕ) (l : List Layer) (layers : List String) :
    Moves SameManifests (fetchLayers o dir i l layers) := by
  induction l generalizing i layers with
  | nil => exact .pure _
  | cons layer rest ih =>
    exact .bind (trying_moves _) fun _ => .bind (checkHashSum_moves _ _ _ _) fun _ =>
      .bind (importLayer_moves _ _ _ _) fun _ => ih _ _

theorem trying_ok {err : Option String} {s t : SpoolState} (h : trying err s = (.ok (),t)) : t = s := by
  cases err with
  | none =>
    cases h
    rfl
  | some e => cases h

theorem checkHashSum_ok {o : Outside} {i : ℕ} {layer : Layer} {blobPath : String} {s t : SpoolState}
    (h : checkHashSum o i layer blobPath s = (.ok (),t)) : t = s ∧ o.sha256 i = some layer.digest := by
  unfold checkHashSum at h
  split at h
  · cases h
  · cases hdigest : o.sha256 i with
    | none =>
      rw [hdigest] at h
      cases h
    | some digest =>
      simp only [hdigest] at h
      split at h
      · cases h
      · rename_i hsum
        cases h
        exact ⟨rfl,congrArg some (not_not.mp hsum)⟩

theorem importLayer_ok {o : Outside} {i : ℕ} {portoLayerName blobPath : String} {s t : SpoolState}
    (h : importLayer o i portoLayerName blobPath s = (.ok (),t)) :
    t.imports = s.imports ++ [(portoLayerName,blobPath)] := by
  obtain ⟨_,u,hu,h⟩ := of_bind_ok h
  cases hu
  revert h
  rcases o.importLayer i with _ | (_ | _ | _) <;> intro h <;> cases h
  · rfl
  · rfl

theorem fetchLayers_ok {o : Outside} {dir : String} {i : ℕ} {l : List Layer} {layers names : List String}
    {s t : SpoolState} (h : fetchLayers o dir i l layers s = (.ok names,t)) :
    names = layers ++ l.map Layer.portoLayerName ∧
      t.imports = s.imports ++ l.map (fun layer => (layer.portoLayerName,join dir layer.digest)) ∧
      ∀ j layer, l[j]? = some layer → o.sha256 (i + j) = some layer.digest := by
  induction l generalizing i layers s with
  | nil =>
    cases h
    simp
  | cons layer rest ih =>
    obtain ⟨_,s₁,h₁,h⟩ := of_bind_ok h
    obtain ⟨_,s₂,h₂,h⟩ := of_bind_ok h
    obtain ⟨_,s₃,h₃,h⟩ := of_bind_ok h
    obtain ⟨hsame,hsum⟩ := checkHashSum_ok h₂
    obtain ⟨hnames,himports,hsums⟩ := ih h
    refine ⟨?_,?_,?_⟩
    · rw [hnames]
      simp
    · rw [himports, importLayer_ok h₃, hsame, trying_ok h₁]
      simp
    · intro j layer' hj
      cases j with
      | zero =>
        cases hj
        exact hsum
      | succ j =>
        rw [← hsums j layer' hj]
        congr 1
        omega

theorem layersOrder_moves (m : Manifest) : Moves SameManifests (layersOrder m) := by
  cases m with
  | schema1 _ => exact .pure _
  | schema2 _ => exact .pure _
  | other _ => exact .throw _

theorem insertManifestLayers_fails (manifest layers : String) :
    Fails SameManifests (insertManifestLayers manifest layers) := by
  intro s o t h ho
  cases h
  exact (ho () rfl).elim

theorem getLayersViaRegistry_fails (o : Outside) (name : String) (profile : SpoolProfile) :
    Fails SameManifests (getLayersViaRegistry o name profile) := by
  unfold getLayersViaRegistry
  split
  · exact (Moves.throw _).fails
  · exact .bind (answered_moves _) fun _ => .bind (trying_moves _) fun _ => .bind (trying_moves _) fun _ =>
      .bind (trying_moves _) fun _ => .bind (answered_moves _) fun _ => .bind (layersOrder_moves _) fun _ =>
      .bind (trying_moves _) fun _ => .bind (importDescriptors_moves _ _ _ _) fun _ => insertManifestLayers_fails _ _

theorem getLayersViaDownloadHelper_fails (o : Outside) (dir name : String) (profile : SpoolProfile) :
    Fails SameManifests (getLayersViaDownloadHelper o dir name profile) :=
  .bind (trying_moves _) fun _ => .bind (fetchLayers_moves _ _ _ _ _) fun _ => insertManifestLayers_fails _ _

theorem getLayersViaDownloadHelper_ok {o : Outside} {dir name : String} {profile : SpoolProfile} {s t : SpoolState}
    (h : getLayersViaDownloadHelper o dir name profile s = (.ok (),t)) :
    t.manifests = s.manifests.insert name (";".intercalate (profile.layers.map Layer.portoLayerName)) ∧
      t.imports = s.imports ++ profile.layers.map (fun layer => (layer.portoLayerName,join dir layer.digest)) ∧
      ∀ j layer, profile.layers[j]? = some layer → o.sha256 j = some layer.digest := by
  obtain ⟨_,s₁,h₁,h⟩ := of_bind_ok h
  obtain ⟨names,s₂,h₂,h⟩ := of_bind_ok h
  have hsame : s₂.manifests = s₁.manifests := (fetchLayers_moves _ _ _ _ _).of_eq h₂
  obtain ⟨hnames,himports,hsums⟩ := fetchLayers_ok h₂
  have hstart : s₁ = s := trying_ok h₁
  cases h
  refine ⟨?_,hstart ▸ himports,fun j layer hj => ?_⟩
  · change s₂.manifests.insert name _ = _
    rw [hsame, hstart, hnames, List.nil_append]
  · rw [← hsums j layer hj, Nat.zero_add]

/-- The registry has an image with these layers, base first, in a manifest of either schema. -/
def Serves (o : Outside) (image : List String) : Prop :=
  o.manifest = .ok (.schema1 image.reverse) ∨ o.manifest = .ok (.schema2 (image.map Descriptor.mk))

theorem Serves.order {o : Outside} {image : List String} (h : Serves o image) :
    ∃ m order, o.manifest = .ok m ∧ layersOrder m = pure order ∧
      order m.references = image.reverse.map Descriptor.mk := by
  rcases h with h | h
  · exact ⟨_,_,h,rfl,rfl⟩
  · refine ⟨_,_,h,rfl,?_⟩
    rw [layerOrderV2, Manifest.references, swapEnds_eq_reverse, List.map_reverse]

theorem getLayersViaRegistry_ok {o : Outside} {image : List String} (hserves : Serves o image) {name : String}
    {profile : SpoolProfile} {s t : SpoolState} (h : getLayersViaRegistry o name profile s = (.ok (),t)) :
    t.manifests = s.manifests.insert name (";".intercalate (image.reverse.map portoLayerName)) := by
  obtain ⟨m,order,hm,horder,hrefs⟩ := hserves.order
  unfold getLayersViaRegistry at h
  split at h
  · cases h
  · obtain ⟨_,s₁,h₁,h⟩ := of_bind_ok h
    obtain ⟨_,s₂,h₂,h⟩ := of_bind_ok h
    obtain ⟨_,s₃,h₃,h⟩ := of_bind_ok h
    obtain ⟨_,s₄,h₄,h⟩ := of_bind_ok h
    rw [hm, bind_ok (show answered (.ok m) s₄ = (.ok m,s₄) from rfl), horder,
      bind_ok (show (pure order : Run _) s₄ = (.ok order,s₄) from rfl)] at h
    obtain ⟨_,s₅,h₅,h⟩ := of_bind_ok h
    obtain ⟨names,s₆,h₆,h⟩ := of_bind_ok h
    have hsame : s₆.manifests = s.manifests := by
      rw [(importDescriptors_moves _ _ _ _).of_eq h₆, (trying_moves _).of_eq h₅, (trying_moves _).of_eq h₄,
        (trying_moves _).of_eq h₃, (trying_moves _).of_eq h₂, (answered_moves _).of_eq h₁]
    have hnames := importDescriptors_ok h₆
    rw [hrefs] at hnames
    cases h
    change s₆.manifests.insert name _ = _
    rw [hsame, hnames, List.nil_append, List.map_map]
    rfl

/-- Porto has taken the layer, or had it. -/
def Taken : Option ImportError → Prop
  | none | some .layerAlreadyExists => True
  | _ => False

instance : (e : Option ImportError) → Decidable (Taken e)
  | none | some .layerAlreadyExists => .isTrue trivial
  | some (.porto _) | some (.other _) => .isFalse id

theorem importLayer_taken {o : Outside} {i : ℕ} (h : Taken (o.importLayer i)) (portoLayerName blobPath : String)
    (s : SpoolState) : ∃ t, importLayer o i portoLayerName blobPath s = (.ok (),t) := by
  refine ⟨{ s with imports := s.imports ++ [(portoLayerName,blobPath)] },?_⟩
  rw [importLayer, bind_ok (show modify _ s = (.ok (),_) from rfl)]
  revert h
  rcases o.importLayer i with _ | (_ | _ | _)
  · exact fun _ => rfl
  · exact fun _ => rfl
  · exact False.elim
  · exact False.elim

theorem importDescriptors_taken {o : Outside} {i : ℕ} {l : List Descriptor}
    (hblob : ∀ j d, l[j]? = some d → ∃ path, o.blob (i + j) d.digest = .ok path)
    (htaken : ∀ j < l.length, Taken (o.importLayer (i + j))) (layers : List String) (s : SpoolState) :
    ∃ names t, importDescriptors o i l layers s = (.ok names,t) := by
  induction l generalizing i layers s with
  | nil => exact ⟨_,_,rfl⟩
  | cons d rest ih =>
    obtain ⟨path,hpath⟩ : ∃ path, o.blob i d.digest = .ok path := hblob 0 d rfl
    have hfirst : Taken (o.importLayer i) := htaken 0 (by simp)
    obtain ⟨t,ht⟩ := importLayer_taken hfirst (portoLayerName d.digest) path s
    have hshift : ∀ j, i + 1 + j = i + (j + 1) := fun j => by omega
    obtain ⟨names,u,hu⟩ := ih (i := i + 1) (fun j e hj => hshift j ▸ hblob (j + 1) e hj)
      (fun j hj => hshift j ▸ htaken (j + 1) (by simpa using hj)) (layers ++ [portoLayerName d.digest]) t
    refine ⟨names,u,?_⟩
    rw [importDescriptors, hpath, bind_ok (show answered (.ok path) s = (.ok path,s) from rfl), bind_ok ht, hu]

/-- Nothing else is needed for a spool through the registry to succeed than that every
step is answered. -/
theorem getLayersViaRegistry_succeeds {o : Outside} {image : List String} (hserves : Serves o image) {name : String}
    {profile : SpoolProfile} (hregistry : profile.registry ≠ "") {named : String}
    (hnamed : o.parseNamed (joinAll [profile.repository,profile.repository,name]) = .ok named)
    (hrepo : o.newRepository named (registryURL profile.registry) = none) (htag : o.tag = none)
    (hmanifests : o.manifests = none) (hporto : o.portoConnect = none)
    (hblob : ∀ j d, image.reverse[j]? = some d → ∃ path, o.blob j d = .ok path)
    (htaken : ∀ j < image.length, Taken (o.importLayer j)) (s : SpoolState) :
    ∃ t, getLayersViaRegistry o name profile s = (.ok (),t) := by
  obtain ⟨m,order,hm,horder,hrefs⟩ := hserves.order
  obtain ⟨names,t,ht⟩ := importDescriptors_taken (o := o) (i := 0) (l := image.reverse.map Descriptor.mk)
    (by
      intro j d hd
      rw [List.getElem?_map] at hd
      obtain ⟨digest,hdigest,rfl⟩ := Option.map_eq_some_iff.mp hd
      rw [Nat.zero_add]
      exact hblob j digest hdigest)
    (by
      intro j hj
      rw [Nat.zero_add]
      exact htaken j (by simpa using hj)) [] s
  have hpass : ∀ u : SpoolState, trying none u = (.ok (),u) := fun _ => rfl
  refine ⟨{ t with manifests := t.manifests.insert name (";".intercalate names) },?_⟩
  unfold getLayersViaRegistry
  rw [if_neg hregistry, hnamed, bind_ok (show answered (.ok named) s = (.ok named,s) from rfl), hrepo,
    bind_ok (hpass s), htag, bind_ok (hpass s), hmanifests, bind_ok (hpass s), hm,
    bind_ok (show answered (.ok m) s = (.ok m,s) from rfl), horder,
    bind_ok (show (pure order : Run _) s = (.ok order,s) from rfl), hporto, bind_ok (hpass s), hrefs, bind_ok ht]
  rfl

theorem portoLayerName_digest {alg hex : String} (ha : ':' ∉ alg.toList) (hh : ':' ∉ hex.toList) :
    portoLayerName (alg ++ ":" ++ hex) = alg ++ "_" ++ hex := by
  have hkeep : ∀ l : List Char, ':' ∉ l → l.map (fun c => if c = ':' then '_' else c) = l := by
    intro l hl
    conv_rhs => rw [← List.map_id l]
    refine List.map_congr_left ?_
    intro c hc
    exact if_neg (ne_of_mem_of_not_mem hc hl)
  apply String.toList_inj.mp
  simp [portoLayerName, String.toList_map, hkeep _ ha, hkeep _ hh]

/-- The layers are those of the image, from the top and with their digests in two parts. -/
def Lists (layers : List Layer) (image : List String) : Prop :=
  image.reverse = layers.map (fun layer => layer.digestType ++ ":" ++ layer.digest) ∧
    ∀ layer ∈ layers, ':' ∉ layer.digestType.toList ∧ ':' ∉ layer.digest.toList

theorem Lists.names {layers : List Layer} {image : List String} (h : Lists layers image) :
    image.reverse.map portoLayerName = layers.map Layer.portoLayerName := by
  rw [h.1, List.map_map]
  refine List.map_congr_left fun layer hlayer => ?_
  exact portoLayerName_digest (h.2 layer hlayer).1 (h.2 layer hlayer).2

/-- A spool that succeeds through the registry has recorded the layers of the image
from the top, under the name of the application and nowhere else, and one that succeeds
through the download helper those of the profile, which it has imported; one that fails
has recorded nothing, and neither has a failed attempt of the download helper. Both name
a layer alike, so that for a profile with the layers of the image they record the same. -/
theorem layers_recorded (o : Outside) (dir name : String) (profile : SpoolProfile) (s : SpoolState) :
    (∀ image t, Serves o image → getLayersViaRegistry o name profile s = (.ok (),t) →
      t.manifests = s.manifests.insert name (";".intercalate (image.reverse.map portoLayerName))) ∧
    (∀ e t, getLayersViaRegistry o name profile s = (.error e,t) → t.manifests = s.manifests) ∧
    (∀ e t, getLayersViaDownloadHelper o dir name profile s = (.error e,t) → t.manifests = s.manifests) ∧
    (∀ layer : Layer, ':' ∉ layer.digestType.toList → ':' ∉ layer.digest.toList →
      portoLayerName (layer.digestType ++ ":" ++ layer.digest) = layer.digestType ++ "_" ++ layer.digest ∧
      layer.portoLayerName = layer.digestType ++ "_" ++ layer.digest) ∧
    (∀ t, getLayersViaDownloadHelper o dir name profile s = (.ok (),t) →
      t.manifests = s.manifests.insert name (";".intercalate (profile.layers.map Layer.portoLayerName)) ∧
      t.imports = s.imports ++ profile.layers.map (fun layer => (layer.portoLayerName,join dir layer.digest)) ∧
      ∀ j layer, profile.layers[j]? = some layer → o.sha256 j = some layer.digest) ∧
    ∀ image t u, Serves o image → Lists profile.layers image → getLayersViaRegistry o name profile s = (.ok (),t) →
      getLayersViaDownloadHelper o dir name profile s = (.ok (),u) → t.manifests = u.manifests := by
  refine ⟨?_,?_,?_,?_,?_,?_⟩
  · intro image t hserves h
    exact getLayersViaRegistry_ok hserves h
  · intro e t h
    exact getLayersViaRegistry_fails o name profile s _ t h nofun
  · intro e t h
    exact getLayersViaDownloadHelper_fails o dir name profile s _ t h nofun
  · intro layer ha hh
    exact ⟨portoLayerName_digest ha hh,rfl⟩
  · intro t h
    exact getLayersViaDownloadHelper_ok h
  · intro image t u hserves hlists ht hu
    rw [getLayersViaRegistry_ok hserves ht, (getLayersViaDownloadHelper_ok hu).1, hlists.names]

/-- An image of two layers, the base of which porto has already, spooled either way. -/
theorem layers_recorded_two :
    let o : Outside :=
      { parseNamed := .ok, newRepository := fun _ _ => none, tag := none, manifests := none,
        manifest := .ok (.schema2 [⟨"sha256:0a"⟩,⟨"sha256:1b"⟩]), portoConnect := none, blob := fun _ d => .ok ("/layers/" ++ d),
        importLayer := fun i => if i = 1 then some .layerAlreadyExists else none, download := fun _ _ => none,
        openLayer := fun _ => true, sha256 := fun i => if i = 0 then some "1b" else some "0a", bindAllocs := fun _ => none }
    let profile : SpoolProfile := ⟨"registry","apps",∅,[⟨"1b","sha256",7,"rb:1"⟩,⟨"0a","sha256",9,"rb:0"⟩]⟩
    ∃ t u, getLayersViaRegistry o "app" profile ⟨∅,[]⟩ = (.ok (),t) ∧
      t.manifests = (∅ : Map).insert "app" "sha256_1b;sha256_0a" ∧
      getLayersViaDownloadHelper o "/layers" "app" profile ⟨∅,[]⟩ = (.ok (),u) ∧ t.manifests = u.manifests := by
  intro o profile
  have hserves : Serves o ["sha256:0a","sha256:1b"] := .inr rfl
  have hlists : Lists profile.layers ["sha256:0a","sha256:1b"] := by
    refine ⟨rfl,?_⟩
    decide
  obtain ⟨t,ht⟩ : ∃ t, getLayersViaRegistry o "app" profile ⟨∅,[]⟩ = (.ok (),t) :=
    getLayersViaRegistry_succeeds hserves (by decide) rfl rfl rfl rfl rfl (fun _ d _ => ⟨"/layers/" ++ d,rfl⟩)
      (by decide) _
  obtain ⟨u,hu⟩ : ∃ u, getLayersViaDownloadHelper o "/layers" "app" profile ⟨∅,[]⟩ = (.ok (),u) := ⟨_,rfl⟩
  obtain ⟨hregistry,-,-,-,-,hsame⟩ := layers_recorded o "/layers" "app" profile ⟨∅,[]⟩
  refine ⟨t,u,ht,?_,hu,hsame _ t u hserves hlists ht hu⟩
  rw [hregistry _ t hserves ht]
  have hbase : portoLayerName "sha256:0a" = "sha256_0a" := by simp [portoLayerName, ← String.toList_inj]
  have htop : portoLayerName "sha256:1b" = "sha256_1b" := by simp [portoLayerName, ← String.toList_inj]
  simp only [List.reverse_cons, List.reverse_nil, List.nil_append, List.cons_append, List.map_cons, List.map_nil,
    hbase, htop]
  rfl

/-! ## Spool -/

/-- At most the entry of one application is new. -/
def Records (name : String) (s t : SpoolState) : Prop :=
  t.manifests = s.manifests ∨ ∃ layers, t.manifests = s.manifests.insert name layers

theorem records_bind {α β : Type} {name : String} {m : Run α} {f : α → Run β} (hm : Moves SameManifests m)
    (hf : ∀ a, Moves (Records name) (f a)) : Moves (Records name) (m >>= f) := by
  intro s
  refine bind_ends (P := Records name s) (.inl (hm s)) ?_
  intro a t ht _
  have hsame : t.manifests = s.manifests := hm.of_eq ht
  have hrec := hf a t
  rwa [Records, hsame] at hrec

theorem insertManifestLayers_records (name layers : String) : Moves (Records name) (insertManifestLayers name layers) :=
  fun _ => .inr ⟨layers,rfl⟩

theorem getLayersViaRegistry_records (o : Outside) (name : String) (profile : SpoolProfile) :
    Moves (Records name) (getLayersViaRegistry o name profile) := by
  unfold getLayersViaRegistry
  split
  · exact fun _ => .inl rfl
  · exact records_bind (answered_moves _) fun _ => records_bind (trying_moves _) fun _ =>
      records_bind (trying_moves _) fun _ => records_bind (trying_moves _) fun _ =>
      records_bind (answered_moves _) fun _ => records_bind (layersOrder_moves _) fun _ =>
      records_bind (trying_moves _) fun _ => records_bind (importDescriptors_moves _ _ _ _) fun _ =>
      insertManifestLayers_records _ _

theorem getLayersViaDownloadHelper_records (o : Outside) (dir name : String) (profile : SpoolProfile) :
    Moves (Records name) (getLayersViaDownloadHelper o dir name profile) :=
  records_bind (trying_moves _) fun _ => records_bind (fetchLayers_moves _ _ _ _ _) fun _ =>
    insertManifestLayers_records _ _

theorem getLayers_records (o : Outside) (b : SpoolConfig) (name : String) (profile : SpoolProfile) :
    Moves (Records name) (getLayers o b name profile) := by
  unfold getLayers
  split
  · intro s
    refine bind_ends (P := Records name s) (Moves.attempt (getLayersViaDownloadHelper_records o _ _ _) s) ?_
    intro r t ht hrec
    rcases of_attempt_ok ht with ⟨a,rfl,-⟩ | ⟨e,rfl,he⟩
    · exact hrec
    · have hsame : t.manifests = s.manifests := getLayersViaDownloadHelper_fails o b.layers name profile s _ t he nofun
      have hreg := getLayersViaRegistry_records o name profile t
      rw [Records, hsame] at hreg
      dsimp only
      split
      · exact hreg
      · exact hrec
  · exact getLayersViaRegistry_records o name profile

theorem bindAllocs_moves (o : Outside) (b : SpoolConfig) (profile : SpoolProfile) :
    Moves SameManifests (bindAllocs o b profile) := by
  unfold bindAllocs
  split
  · split
    · exact .throw _
    · exact .pure _
  · exact .pure _

theorem spool_records (o : Outside) (b : SpoolConfig) (name : String) (profile : SpoolProfile) :
    Moves (Records name) (spool o b name profile) := by
  intro s
  refine bind_ends (P := Records name s) (getLayers_records o b name profile s) ?_
  intro _ t _ hrec
  have hsame : (bindAllocs o b profile t).2.manifests = t.manifests := bindAllocs_moves o b profile t
  rwa [Records, hsame]

end Stout.Porto.Layers
