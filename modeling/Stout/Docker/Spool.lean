import Stout.Docker.ImagePull
import Stout.Docker.Spawn

/-! # Pulling an image and spawning from it

`Box.Spool` of `docker/box.go` beside `newContainer`. The reference that is pulled is put
together from the registry, the repository and the name as a path, the one that a container
is created from only from the registry and the name, as text.
-/
namespace Stout.Docker
open Prog
open ImagePull (decodeImagePull ReadErr)
open Porto (Map lookup)
open Paths (clean joinAll names kept Rooted)

structure FullProfile extends Profile where
  repository : String

structure Pull where
  ref : String
  registryAuth : String
deriving DecidableEq, Repr

inductive SpoolErr where
  | decode (err : String)
  | imagePull (err : String)
  | reply (err : ImagePull.Err)
deriving DecidableEq, Repr

/-- `Spool` and the pulls it makes, with the profile as it is decoded and with what Docker
answers: an error, or a body and what ends it. -/
def spool (registryAuth : Map) (imagePull : Pull → Except String (ReadErr × List UInt8)) (profile : Except String FullProfile)
    (name : String) : Except SpoolErr Unit × List Pull :=
  match profile with
  | .error e => (.error (.decode e),[])
  | .ok profile =>
    if profile.registry = "" then (.ok (),[])
    else
      let ref := joinAll [profile.registry,profile.repository,name]
      let pull : Pull := ⟨ref,lookup registryAuth profile.registry⟩
      match imagePull pull with
      | .error e => (.error (.imagePull e),[pull])
      | .ok (stop,body) => ((decodeImagePull stop body).mapError .reply,[pull])

/-! ## The two references -/

def FullProfile.image (p : FullProfile) (name : String) : String :=
  if p.registry ≠ "" then p.registry ++ "/" ++ name else name

/-- The names of the repository, between those of the registry and the name, make no
difference. -/
def FullProfile.Cancels (p : FullProfile) (name : String) : Prop :=
  kept (p.registry ++ "/" ++ p.repository ++ "/" ++ name) = kept (p.registry ++ "/" ++ name)

section References
variable {p : FullProfile} {name : String}

theorem joinAll_three (h : p.registry ≠ "") :
    joinAll [p.registry,p.repository,name] = clean (p.registry ++ "/" ++ p.repository ++ "/" ++ name) := by
  rw [joinAll, if_pos h]
  rfl

theorem rooted_three (h : p.registry ≠ "") :
    Rooted (p.registry ++ "/" ++ p.repository ++ "/" ++ name) ↔ Rooted (p.registry ++ "/" ++ name) := by
  have hne : p.registry ++ "/" ++ p.repository ≠ "" := by simp [h]
  rw [Paths.rooted_slash hne, Paths.rooted_slash h, Paths.rooted_slash h]

/-- The references are the same exactly if the second is a clean path and the repository
cancels out. -/
theorem ref_eq_image_iff (h : p.registry ≠ "") :
    joinAll [p.registry,p.repository,name] = p.image name ↔ clean (p.image name) = p.image name ∧ p.Cancels name := by
  rw [joinAll_three h, FullProfile.image, if_pos h]
  constructor
  · intro he
    have hclean : clean (p.registry ++ "/" ++ name) = p.registry ++ "/" ++ name := by
      rw [← he, Paths.clean_clean]
    exact ⟨hclean,(Paths.clean_eq_iff (rooted_three h)).mp (he.trans hclean.symm)⟩
  · rintro ⟨hclean,hkept⟩
    rw [(Paths.clean_eq_iff (rooted_three h)).mpr hkept, hclean]

/-- A repository that does not climb cancels out only if there is no name in it. -/
theorem cancels_iff (h : p.registry ≠ "") (hrepository : ".." ∉ names p.repository) (hname : ".." ∉ names name) :
    p.Cancels name ↔ ∀ n ∈ names p.repository, n = "" ∨ n = "." := by
  have hne : p.registry ++ "/" ++ p.repository ≠ "" := by simp [h]
  have hboth : ".." ∉ names p.repository ++ names name := by simp [hrepository, hname]
  rw [FullProfile.Cancels, Paths.kept_slash hne, Paths.kept_slash h, Paths.kept_slash h]
  simp only [Paths.rooted_slash h]
  rw [← List.foldl_append, Paths.foldl_cleanStep_down hboth, Paths.foldl_cleanStep_down hname, List.append_left_inj,
    List.filter_append, List.reverse_append, List.append_right_eq_self, List.reverse_eq_nil_iff, List.filter_eq_nil_iff]
  simp [imp_iff_not_or]

end References

/-! ## The pull and the spawn -/

theorem mem_spool_iff {registryAuth : Map} {imagePull : Pull → Except String (ReadErr × List UInt8)} {p : FullProfile}
    {name : String} {pull : Pull} : pull ∈ (spool registryAuth imagePull (.ok p) name).2 ↔
      p.registry ≠ "" ∧ pull = ⟨joinAll [p.registry,p.repository,name],lookup registryAuth p.registry⟩ := by
  by_cases h : p.registry = ""
  · simp [spool, h]
  · simp only [spool, if_neg h]
    split <;> simp [h]

theorem config_of_spawn {o : Outside} {config : SpawnConfig} {profile : Profile} {w : World} {id : String} {c : Config}
    {hc : HostConfig} (hd : config.decodeTo defaultProfile = .ok profile)
    (h : .containerCreate id c hc ∈ callsSince w (spawn o config w).2) :
    c = containerConfig o profile config.name config.executable config.args config.env := by
  rw [spawn_of_decoded hd] at h
  split at h
  · simp [callsSince] at h
  · cases ha : o.acquire with
    | some e => simp [ha, callsSince] at h
    | none =>
      cases hcreate : o.containerCreate with
      | error e => simp [ha, callsSince, Prog.defer, Prog.modify, createAndStart_of_create_error hcreate] at h
      | ok id' =>
        simp only [ha, callsSince, Prog.defer, Prog.modify, createAndStart_of_created hcreate] at h
        -- one more call follows, whether the container starts or not
        split at h
        all_goals
          simp only [record, Prog.modify, World.created, List.append_assoc, List.drop_left, List.mem_append, List.mem_singleton,
            Call.containerCreate.injEq, reduceCtorEq, or_false] at h
          exact h.2.1

/-- Every container that is created with a profile is created from what was pulled with it. -/
def SameImage (p : FullProfile) (name : String) : Prop :=
  ∀ (registryAuth : Map) (imagePull : Pull → Except String (ReadErr × List UInt8)) (o : Outside) (config : SpawnConfig) (w : World),
    config.name = name → config.decodeTo defaultProfile = .ok p.toProfile →
      ∀ pull ∈ (spool registryAuth imagePull (.ok p) name).2, ∀ id c hc,
        .containerCreate id c hc ∈ callsSince w (spawn o config w).2 → c.image = pull.ref

theorem sameImage_iff {p : FullProfile} {name : String} :
    SameImage p name ↔ (p.registry ≠ "" → joinAll [p.registry,p.repository,name] = p.image name) := by
  constructor
  · intro h hr
    -- one worker of an empty box
    let o : Outside := ⟨none,.ok "",none,[],[]⟩
    let config : SpawnConfig := ⟨fun _ => .ok p.toProfile,name,"",∅,∅⟩
    have hcall : .containerCreate "" (containerConfig o p.toProfile name "" ∅ ∅) (hostConfig p.toProfile ∅) ∈
        callsSince ⟨0,0,∅,[]⟩ (spawn o config ⟨0,0,∅,[]⟩).2 := List.mem_cons_self
    exact (h ∅ (fun _ => .error "") o config ⟨0,0,∅,[]⟩ rfl rfl _ (mem_spool_iff.mpr ⟨hr,rfl⟩) _ _ _ hcall).symm
  · intro h registryAuth imagePull o config w hname hd pull hpull id c hc hcall
    obtain ⟨hr,rfl⟩ := mem_spool_iff.mp hpull
    rw [config_of_spawn hd hcall, hname]
    exact (h hr).symm

/-- With a registry, the container is created from the image that was pulled exactly if the
registry and the name make a clean path and the repository cancels out; one that does not
climb does so only if it is empty. Without a registry nothing is pulled. -/
theorem spool_spawn_sameImage_iff (p : FullProfile) (name : String) :
    (SameImage p name ↔ p.registry ≠ "" →
      clean (p.registry ++ "/" ++ name) = p.registry ++ "/" ++ name ∧ p.Cancels name) ∧
    (p.registry ≠ "" → ".." ∉ names p.repository → ".." ∉ names name →
      (p.Cancels name ↔ ∀ n ∈ names p.repository, n = "" ∨ n = ".")) ∧
    (p.registry = "" → ∀ registryAuth imagePull, spool registryAuth imagePull (.ok p) name = (.ok (),[])) := by
  refine ⟨?_,cancels_iff,?_⟩
  · rw [sameImage_iff]
    refine forall_congr' fun hr => ?_
    rw [ref_eq_image_iff hr, FullProfile.image, if_pos hr]
  · intro hr registryAuth imagePull
    simp [spool, hr]

/-- A repository is given: `reg/repo/app` is pulled and the container is created from
`reg/app`. -/
theorem repository_not_spawned :
    let p : FullProfile := { defaultProfile with registry := "reg", repository := "repo" }
    let o : Outside := ⟨none,.ok "c1",none,[],[]⟩
    let config : SpawnConfig := ⟨fun _ => .ok p.toProfile,"app","/app/run",∅,∅⟩
    (spool ∅ (fun _ => .ok (.eof,[])) (.ok p) "app").2 = [⟨"reg/repo/app",""⟩] ∧
      (∃ c hc, .containerCreate "c1" c hc ∈ callsSince ⟨0,0,∅,[]⟩ (spawn o config ⟨0,0,∅,[]⟩).2 ∧ c.image = "reg/app") ∧
      ¬SameImage p "app" := by
  intro p o config
  have hpull : joinAll [p.registry,p.repository,"app"] = "reg/repo/app" := by decide
  refine ⟨?_,⟨_,_,List.mem_cons_self,by decide⟩,?_⟩
  · have hauth : lookup ∅ "reg" = "" := by simp [lookup]
    simpa [spool, p] using ⟨hpull,hauth⟩
  · rw [sameImage_iff, hpull]
    simp [FullProfile.image, p]

end Stout.Docker
