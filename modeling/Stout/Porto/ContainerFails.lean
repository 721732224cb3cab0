import Stout.Porto.Container
import Stout.Isolate.MtnRuns

/-! # When the creation of a container fails

`newContainer` goes through three phases. Whether a phase ends with an error can be
read off the points where the outside fails, but for `UseAlloc`, whose answer depends
on the pool.
-/
namespace Stout.Porto
open Std (ExtTreeMap)
open Paths (join)
open Prog Mtn RangeOrder

section Failing
variable (o : Outside) (c : ContainerConfig)

theorem always_failsIff (calls : List Call) : FailsIff False (always calls) := .modify _

theorem trying_failsIff (p : Point) (call : Call) : FailsIff (o.fault p ≠ none) (trying o p call) := by
  unfold trying
  cases o.fault p with
  | none => exact (always_failsIff _).congr (by simp)
  | some e => exact (FailsIff.throw _).congr (by simp)

theorem newVolume_failsIff (volume : Volume) : FailsIff False (newVolume volume) :=
  fun w => Or.inr ⟨not_false,w.volumes.length,rfl⟩

theorem cleanUpOnError_failsIff (volumes : List ℕ) : FailsIff False (cleanUpOnError volumes) :=
  (FailsIff.forM fun _ _ => .modify _).congr (by simp)

theorem createRootVolume_failsIff :
    FailsIff (o.fault .mkdirRoot ≠ none ∨ o.fault .createRoot ≠ none) (createRootVolume o c) := by
  refine ((trying_failsIff o _ _).bind fun _ => (newVolume_failsIff _).bind fun v =>
    ((trying_failsIff o .createRoot _).onError _).bind fun _ => .pure v).congr ?_
  simp

def ExtraFails (i : ℕ) (volumeprofile : VolumeProfile) : Prop :=
  volumeprofile.target = "" ∨ o.fault (.mkdirTarget i) ≠ none ∨
    (lookup volumeprofile.properties "storage" ≠ "" ∧ o.fault (.mkdirStorage i) ≠ none) ∨
    o.fault (.createExtra i) ≠ none

theorem createStorage_failsIff (i : ℕ) (volumeprofile : VolumeProfile) (volumes : List ℕ) (v : ℕ) :
    FailsIff (lookup volumeprofile.properties "storage" ≠ "" ∧ o.fault (.mkdirStorage i) ≠ none)
      (createStorage o c i volumeprofile volumes v) := by
  unfold createStorage
  dsimp only
  split
  · rename_i hs
    refine (((trying_failsIff o (.mkdirStorage i) _).onError _).bind fun _ =>
      (FailsIff.modify _).bind fun _ => .pure _).congr ?_
    simp [hs]
  · rename_i hs
    exact (FailsIff.pure _).congr (by simp [hs])

theorem createExtra_failsIff (root : String) (i : ℕ) (volumes : List ℕ) (l : List VolumeProfile) :
    FailsIff (∃ p ∈ l.zipIdx i, ExtraFails o p.2 p.1) (createExtra o c root i volumes l) := by
  induction l generalizing i volumes with
  | nil => exact (FailsIff.pure _).congr (by simp)
  | cons vp rest ih =>
    unfold createExtra
    split
    · rename_i ht
      refine ((cleanUpOnError_failsIff volumes).bind fun _ => FailsIff.throw emptyTarget).congr ?_
      simp [ExtraFails, ht]
    · rename_i ht
      refine (((trying_failsIff o (.mkdirTarget i) _).onError _).bind fun _ => (newVolume_failsIff _).bind fun v =>
        (createStorage_failsIff o c i vp _ v).bind fun _ =>
          ((trying_failsIff o (.createExtra i) _).onError _).bind fun _ => ih (i + 1) (volumes ++ [v])).congr ?_
      simp [ExtraFails, ht, or_assoc]

def VolumesFail : Prop :=
  o.fault .mkdirRoot ≠ none ∨ o.fault .createRoot ≠ none ∨
    ∃ p ∈ c.profile.extraVolumes.zipIdx, ExtraFails o p.2 p.1

theorem createExtraVolumes_failsIff (root : ℕ) :
    FailsIff (∃ p ∈ c.profile.extraVolumes.zipIdx, ExtraFails o p.2 p.1) (createExtraVolumes o c root) :=
  (FailsIff.read.bind fun _ => createExtra_failsIff o c _ 0 [] _).congr (by simp)

/-- What makes the creation fail once the properties are known: a property cannot be
set, or one of `n` volumes besides the root cannot be linked. -/
def LateFails (n : ℕ) (properties : Map) : Prop :=
  (∃ property ∈ properties, o.fault (.setProperty property) ≠ none) ∨ o.fault .linkRoot ≠ none ∨
    ∃ i < n, o.fault (.linkExtra i) ≠ none

theorem setProperties_failsIff (properties : Map) :
    FailsIff (∃ property ∈ properties, o.fault (.setProperty property) ≠ none) (setProperties o c properties) := by
  refine (FailsIff.forM fun p _ => trying_failsIff o (.setProperty p.1) _).congr ?_
  constructor
  · rintro ⟨p,hp,hf⟩
    exact ⟨p.1,ExtTreeMap.mem_iff_isSome_getElem?.mpr (by rw [mem_arrange_toList.mp hp]; rfl),hf⟩
  · rintro ⟨k,hk,hf⟩
    obtain ⟨v,hv⟩ := Option.isSome_iff_exists.mp (ExtTreeMap.mem_iff_isSome_getElem?.mp hk)
    exact ⟨(k,v),mem_arrange_toList.mpr hv,hf⟩

theorem link_failsIff (p : Point) (v : ℕ) : FailsIff (o.fault p ≠ none) (link o p v) := by
  refine (FailsIff.read.bind fun w => (trying_failsIff o p _).bind fun _ => (always_failsIff _).bind fun _ =>
    FailsIff.modify _).congr ?_
  simp

theorem linkAll_failsIff (root : ℕ) (extraVolumes : List ℕ) :
    FailsIff (o.fault .linkRoot ≠ none ∨ ∃ i < extraVolumes.length, o.fault (.linkExtra i) ≠ none)
      (linkAll o c root extraVolumes) := by
  refine (((link_failsIff o .linkRoot root).onError _).bind fun _ =>
    FailsIff.forM fun p _ => (link_failsIff o (.linkExtra p.2) p.1).onError _).congr ?_
  refine or_congr_right ?_
  constructor
  · rintro ⟨p,hp,hf⟩
    have hlt := List.snd_lt_of_mem_zipIdx hp
    exact ⟨p.2,by simpa using hlt,hf⟩
  · rintro ⟨i,hi,hf⟩
    exact ⟨(extraVolumes.get ⟨i,hi⟩,i),List.mem_zipIdx_iff_getElem?.mpr (by simp [hi]),hf⟩

theorem finish_failsIff (root : ℕ) (extraVolumes : List ℕ) (r : Map × ContainerConfig) :
    FailsIff (LateFails o extraVolumes.length r.1) (finish o root extraVolumes r) := by
  refine ((setProperties_failsIff o r.2 r.1).bind fun _ => (linkAll_failsIff o r.2 root extraVolumes).bind fun _ =>
    .pure _).congr ?_
  simp [LateFails]

end Failing

/-! ## The network -/

def ContainerConfig.asksMtn (c : ContainerConfig) : Prop :=
  c.mtnCfg.enable = true ∧ lookup c.profile.network "mtn" = "enable"

instance (c : ContainerConfig) : Decidable c.asksMtn := inferInstanceAs (Decidable (_ ∧ _))

def ContainerConfig.withoutMtn (c : ContainerConfig) (properties : Map) : Map :=
  if c.mtnCfg.enable = false then properties.insert "net" (pickNetwork c.profile.networkMode) else properties

theorem record_mtn (w : World) (calls : List Call) : (w.record calls).mtn = w.mtn := rfl

theorem network_of_not_asksMtn {c : ContainerConfig} (h : ¬c.asksMtn) (properties : Map) (w : World) :
    network c properties w = (.ok (c.withoutMtn properties,{ c with mtn := false }),w) := by
  unfold network ContainerConfig.withoutMtn
  dsimp only
  split
  · rfl
  · rename_i he
    rw [if_neg]
    · rfl
    · intro hn
      exact h ⟨by simpa using he,hn⟩

theorem network_of_asksMtn {c : ContainerConfig} (h : c.asksMtn) (properties : Map) (w : World) :
    network c properties w =
      match useAlloc c.mtnCfg c.netid c.boxName w.mtn with
      | (.ok a,t) => (.ok (withAllocation properties a,{ c with mtn := true, mtnAllocationId := a.id, mtnIp := a.ip }),
          { w with mtn := t })
      | (.error e,t) => (.error (.mtn e),{ w with mtn := t })
      | (.panic p,t) => (.panic p,{ w with mtn := t }) := by
  unfold network
  dsimp only
  rw [if_neg (by simp [h.1]), if_pos h.2, bind_apply]
  unfold Prog.bind mapError zoom ContainerConfig.netid
  dsimp only
  rcases useAlloc c.mtnCfg (lookup c.profile.network "netid") c.boxName w.mtn with ⟨o,t⟩
  cases o <;> rfl

/-- Whether `CreateContainer` returns an error. -/
def ContainerFails (o : Outside) (c : ContainerConfig) (mtn : Store) : Prop :=
  let n := c.profile.extraVolumes.length
  let properties := c.properties o (join c.root "volume")
  o.fault .create ≠ none ∨
    if c.asksMtn then
      match (useAlloc c.mtnCfg c.netid c.boxName mtn).1 with
      | .ok a => LateFails o n (withAllocation properties a)
      | .error _ => True
      | .panic _ => False
    else LateFails o n (c.withoutMtn properties)

theorem createContainer_of_fault {o : Outside} {c : ContainerConfig} {e : String} (h : o.fault .create = some e)
    (root : ℕ) (extraVolumes : List ℕ) (w : World) :
    createContainer o c root extraVolumes w = (.error (.text e),w) := by
  unfold createContainer trying
  rw [h]
  rfl

theorem createContainer_of_create {o : Outside} {c : ContainerConfig} (h : o.fault .create = none) (root : ℕ)
    (extraVolumes : List ℕ) (w : World) :
    createContainer o c root extraVolumes w =
      onError (network c (c.properties o (w.volume root).path) >>= finish o root extraVolumes)
        (always [.destroy c.id]) (w.record [.create c.id]) := by
  unfold createContainer trying
  rw [h]
  rfl

variable {o : Outside} {c : ContainerConfig} {root : ℕ} {extraVolumes : List ℕ} {w : World}

theorem createContainer_error_iff (hpath : (w.volume root).path = join c.root "volume")
    (hlen : extraVolumes.length = c.profile.extraVolumes.length) :
    (∃ e t, createContainer o c root extraVolumes w = (.error e,t)) ↔ ContainerFails o c w.mtn := by
  unfold ContainerFails
  dsimp only
  cases hf : o.fault .create with
  | some e =>
    rw [createContainer_of_fault hf]
    simp
  | none =>
    rw [createContainer_of_create hf, hpath, onError_error_iff, or_iff_right (by simp)]
    by_cases hask : c.asksMtn
    · rw [if_pos hask]
      have hn := network_of_asksMtn hask (c.properties o (join c.root "volume")) (w.record [.create c.id])
      rw [record_mtn] at hn
      rcases hu : useAlloc c.mtnCfg c.netid c.boxName w.mtn with ⟨r,st⟩
      rw [hu] at hn
      cases r with
      | ok a =>
        rw [bind_ok hn, (finish_failsIff o root extraVolumes _).error_iff, hlen]
      | error e =>
        rw [bind_error hn]
        simp
      | panic p =>
        rw [bind_panic hn]
        simp
    · rw [if_neg hask, bind_ok (network_of_not_asksMtn hask _ _), (finish_failsIff o root extraVolumes _).error_iff, hlen]

end Stout.Porto
