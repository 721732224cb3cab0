import Stout.Porto.Journal
import Stout.Porto.PropertyMerge
import Stout.Porto.SpawnIntact

/-! # The journal of a new box

What `NewBox` of `porto/box.go` does to the journal: it is read from its file and compared
with the layers porto has. The layers of the applications are not compared, so that `Spawn`
takes layers that are gone.
-/
namespace Stout.Porto
open Json Prog
open Paths (join)
open Journal (newJournal LoadErr)

inductive Opened where
  | content (bytes : Bytes)
  | notExist
  | error (message : String)

inductive StartErr where
  | open (message : String)
  | load (e : LoadErr)
  | listLayers (message : String)
deriving DecidableEq, Repr

/-- Without a file the journal stays as it is. -/
def loadJournal (j : Journal) : Opened → Except StartErr Journal
  | .notExist => .ok j
  | .error e => .error (.open e)
  | .content bytes =>
    match j.load bytes with
    | .ok j => .ok j
    | .error e => .error (.load e)

/-- The journal of the box that `NewBox` returns. -/
def startJournal (uuid : String) (file : Opened) (listLayers : Except String (List String)) (order : List ℕ) :
    Except StartErr Journal :=
  match loadJournal (newJournal uuid) file with
  | .error e => .error e
  | .ok j =>
    match listLayers with
    | .error e => .error (.listLayers e)
    | .ok layers => .ok (j.updateFromPorto order layers)

/-! ## What is offered -/

/-- The layers of an application that has any are all listed. -/
def Offered (getManifestLayers : String → String) (layers : List String) : Prop :=
  ∀ app, getManifestLayers app ≠ "" → ∀ layer ∈ items (getManifestLayers app), layer ∈ layers

/-- `Spawn` answers that the application is not spooled if one of its layers is not listed. -/
def Refuses (getManifestLayers : String → String) (layers : List String) : Prop :=
  ∀ o b config profile s, b.getManifestLayers = getManifestLayers → config.opts = .ok profile → o.queueFull = false →
    (∃ layer ∈ items (getManifestLayers config.name), layer ∉ layers) → (spawn o b config s).1 = .error .noLayers

section Offered
variable {getManifestLayers : String → String} {layers : List String}

theorem spawn_of_noLayers {o : SpawnOutside} {b : BoxConfig} {config : SpawnConfig} {profile : Profile}
    (hp : config.opts = .ok profile) (hq : o.queueFull = false) (hl : b.getManifestLayers config.name = "") (s : BoxState) :
    spawn o b config s = (.error .noLayers,s) := by
  unfold spawn
  rw [hp]
  dsimp only
  rw [if_neg (by simp [hq]), if_pos hl]
  rfl

theorem refuses_of_offered (h : Offered getManifestLayers layers) : Refuses getManifestLayers layers := by
  rintro o b config profile s rfl hp hq ⟨layer,hitem,hgone⟩
  have hempty : b.getManifestLayers config.name = "" := by
    by_contra hne
    exact hgone (h config.name hne layer hitem)
  rw [spawn_of_noLayers hp hq hempty]

end Offered

/-! ## What is built on -/

theorem launch_grows {o : SpawnOutside} {c : ContainerConfig} {s : BoxState} {r : Outcome Err Container} {w : World}
    (h : newContainer o.creation c s.world = (r,w)) : LogGrows w (launch o c s).2.world := by
  have hin := inWorld_apply (newContainer o.creation c) s
  rw [h] at hin
  unfold launch
  cases r with
  | error e =>
    rw [bind_error hin]
    exact refl_of LogGrows w
  | panic p =>
    rw [bind_panic hin]
    exact refl_of LogGrows w
  | ok pr =>
    rw [bind_ok hin]
    cases o.start with
    | none => exact refl_of LogGrows w
    | some e =>
      have hgrows := cleanup_grows pr w
      obtain ⟨u,w',hclean⟩ := (cleanup_failsIff pr).exists_ok not_false w
      have hin' := inWorld_apply pr.cleanup ⟨w,Function.update s.containers pr.containerID (some pr)⟩
      dsimp only at hin'
      rw [hclean] at hgrows hin'
      rw [bind_ok (show Prog.modify _ _ = (.ok (),⟨w,Function.update s.containers pr.containerID (some pr)⟩) from rfl)]
      dsimp only
      rw [bind_ok hin']
      exact hgrows

theorem launch_rootVolume {o : SpawnOutside} {c : ContainerConfig} (hf₁ : o.creation.fault .mkdirRoot = none)
    (hf₂ : o.creation.fault .createRoot = none) (s : BoxState) :
    .createVolume s.world.volumes.length (rootPath c) (rootProperties c) ∈ (launch o c s).2.world.log := by
  have hroot := createRootVolume_prepared hf₁ c s.world
  rw [bind_ok (onError_trying_quiet hf₂ _ _ _)] at hroot
  rcases hnew : newContainer o.creation c s.world with ⟨r,w⟩
  obtain ⟨l,hl⟩ := trans_of LogGrows (newContainer_grows hroot hnew) (launch_grows hnew)
  rw [← hl]
  exact List.mem_append_left l (List.mem_append_right _ (List.mem_singleton_self _))

/-! ## The new box -/

theorem startJournal_manifests {uuid : String} {content : Bytes} {j : Journal}
    (h : (newJournal uuid).load content = .ok j) (layers : List String) (order : List ℕ) :
    ∃ k, startJournal uuid (.content content) (.ok layers) order = .ok k ∧ k.getManifestLayers = j.getManifestLayers := by
  refine ⟨j.updateFromPorto order layers,?_,?_⟩
  · rw [startJournal, loadJournal, h]
  · funext app
    rw [Journal.getManifestLayers, Journal.getManifestLayers, Journal.manifests_updateFromPorto]

/-- For every file that `Load` accepts and every list of porto, the journal of the new box
offers layers of the list only, and `Spawn` refuses the other applications, exactly if the
file names no other layers. -/
theorem startJournal_offered_iff {uuid : String} {content : Bytes} {j : Journal}
    (h : (newJournal uuid).load content = .ok j) (layers : List String) (order : List ℕ) :
    ∃ k, startJournal uuid (.content content) (.ok layers) order = .ok k ∧
      (Offered k.getManifestLayers layers ∧ Refuses k.getManifestLayers layers ↔
        ∀ app ∈ j.manifests.getD ∅, j.getManifestLayers app ≠ "" →
          ∀ layer ∈ items (j.getManifestLayers app), layer ∈ layers) := by
  obtain ⟨k,hk,hsame⟩ := startJournal_manifests h layers order
  refine ⟨k,hk,?_⟩
  rw [hsame]
  constructor
  · rintro ⟨hoffered,-⟩ app -
    exact hoffered app
  · intro hfile
    have hoffered : Offered j.getManifestLayers layers := by
      intro app hne
      refine hfile app ?_ hne
      by_contra hn
      refine hne ?_
      unfold Journal.getManifestLayers
      cases hm : j.manifests with
      | none => rfl
      | some m =>
        rw [hm, Option.getD_some] at hn
        simp [hn]
    exact ⟨hoffered,refuses_of_offered hoffered⟩

def oneApp : Bytes := ofAscii "\x7b\"manifests\":\x7b\"app\":\"a;b\"\x7d\x7d"

theorem load_oneApp : (newJournal "u").load oneApp = .ok ⟨"u",some ∅,some ((∅ : Map).insert "app" "a;b")⟩ := rfl

theorem startJournal_offered_iff_held :
    ∃ k, startJournal "u" (.content oneApp) (.ok ["c","b","a"]) [] = .ok k ∧ Offered k.getManifestLayers ["c","b","a"] := by
  obtain ⟨k,hk,hiff⟩ := startJournal_offered_iff load_oneApp ["c","b","a"] []
  refine ⟨k,hk,(hiff.mpr fun app happ _ layer hlayer => ?_).1⟩
  obtain rfl : "app" = app := by simpa using happ
  have hitems : layer ∈ ["a","b"] := hlayer
  revert layer
  decide

/-- One of the two layers is gone, and the application is spawned from both. -/
theorem gone_layer_offered :
    ∃ k, startJournal "u" (.content oneApp) (.ok ["a"]) [] = .ok k ∧ ¬Offered k.getManifestLayers ["a"] ∧
      ∃ properties : Map, properties["layers"]? = some "a;b" ∧ .createVolume 0 "/cont/app_1/volume" properties ∈
        (spawn ⟨⟨fun _ => none,[],[],[]⟩,false,none,false,none⟩ { contBox with getManifestLayers := k.getManifestLayers }
          (worker "app") ⟨⟨[],[],oneFree "lan"⟩,fun _ => none⟩).2.world.log := by
  obtain ⟨k,hk,hsame⟩ := startJournal_manifests load_oneApp ["a"] []
  have happ : k.getManifestLayers "app" = "a;b" := by
    rw [hsame]
    rfl
  refine ⟨k,hk,?_,?_⟩
  · intro hoffered
    have hb := hoffered "app" (by rw [happ]; decide) "b" (by rw [happ]; decide)
    exact absurd hb (by decide)
  · let b : BoxConfig := { contBox with getManifestLayers := k.getManifestLayers }
    let c := b.containerConfig (worker "app") plainProfile
    refine ⟨rootProperties c,?_,?_⟩
    · have hlayer : c.layer = "a;b" := happ
      have hplain : rootProperties c = (((∅ : Map).insert "backend" c.volumeBackend).insert "layers" c.layer).insert
          "private" c.volumeLabel := rfl
      rw [hplain, hlayer, getElem?_insert_ne (by decide), Std.ExtTreeMap.getElem?_insert_self]
    · have hspawn : spawn ⟨⟨fun _ => none,[],[],[]⟩,false,none,false,none⟩ b (worker "app") =
          launch ⟨⟨fun _ => none,[],[],[]⟩,false,none,false,none⟩ c := by
        have hne : k.getManifestLayers "app" ≠ "" := by
          rw [happ]
          decide
        exact if_neg hne
      rw [hspawn]
      have hpath : rootPath c = "/cont/app_1/volume" := by
        change join (join "/cont" (worker "app").id) "volume" = _
        decide +kernel
      have hbuilt := launch_rootVolume (o := ⟨⟨fun _ => none,[],[],[]⟩,false,none,false,none⟩) (c := c) rfl rfl
        ⟨⟨[],[],oneFree "lan"⟩,fun _ => none⟩
      rwa [hpath] at hbuilt

end Stout.Porto
