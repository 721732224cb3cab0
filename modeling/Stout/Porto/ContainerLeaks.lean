import Stout.Porto.ContainerFails
import Stout.Porto.ContainerVolumes

/-! # What a failed creation leaves behind

`newContainer` creates volumes, a container and an allocation one after the other, and
each phase undoes part of what was done before it when it fails. Two facts decide what
is left: when each phase fails, and which calls it has made by then.
-/
namespace Stout.Porto
open Paths (join)
open Prog Mtn

/-! ## The container -/

/-- The calls that `CreateContainer` makes once the container is there. -/
def Call.late : Call → Bool
  | .setProperty .. | .linkVolume .. | .unlinkVolume .. | .destroy _ => true
  | _ => false

/-- Only such calls have been added, and no storage path or allocation has changed. -/
structure Adds (w t : World) : Prop where
  log : ∃ l, t.log = w.log ++ l ∧ ∀ call ∈ l, call.late = true
  storagepath : ∀ v, (t.volume v).storagepath = (w.volume v).storagepath
  mtn : t.mtn = w.mtn

instance : IsPreorder World Adds where
  refl w := ⟨⟨[],by simp,by simp⟩,fun _ => rfl,rfl⟩
  trans w t u h k := by
    obtain ⟨l,hl,hl'⟩ := h.log
    obtain ⟨m,hm,hm'⟩ := k.log
    refine ⟨⟨l ++ m,by rw [hm, hl, List.append_assoc],?_⟩,fun v => (k.storagepath v).trans (h.storagepath v),
      k.mtn.trans h.mtn⟩
    intro call hc
    exact (List.mem_append.mp hc).elim (hl' call) (hm' call)

theorem always_adds {calls : List Call} (h : ∀ call ∈ calls, call.late = true) : Moves Adds (always calls) :=
  fun _ => ⟨⟨calls,rfl,h⟩,fun _ => rfl,rfl⟩

theorem trying_adds (o : Outside) (p : Point) {call : Call} (h : call.late = true) : Moves Adds (trying o p call) := by
  unfold trying
  cases o.fault p with
  | none => exact always_adds (by simpa using h)
  | some e => exact .throw _

theorem link_adds (o : Outside) (p : Point) (v : ℕ) : Moves Adds (link o p v) := by
  refine Moves.read.bind fun w => (trying_adds o p rfl).bind fun _ => (always_adds (by simp [Call.late])).bind fun _ => ?_
  intro t
  refine ⟨⟨[],by simp [update, Prog.modify],by simp⟩,?_,rfl⟩
  intro u
  rw [update, Prog.modify, volume_modify]
  split <;> rfl

theorem setProperties_adds (o : Outside) (c : ContainerConfig) (properties : Map) :
    Moves Adds (setProperties o c properties) :=
  Moves.forM fun _ => trying_adds o _ rfl

theorem linkAll_adds (o : Outside) (c : ContainerConfig) (root : ℕ) (extraVolumes : List ℕ) :
    Moves Adds (linkAll o c root extraVolumes) := by
  have hd : Moves Adds (always [.destroy c.id]) := always_adds (by simp [Call.late])
  exact ((link_adds o _ root).onError hd).bind fun _ => Moves.forM fun p => (link_adds o _ p.1).onError hd

theorem finish_adds (o : Outside) (root : ℕ) (extraVolumes : List ℕ) (r : Map × ContainerConfig) :
    Moves Adds (finish o root extraVolumes r) :=
  (setProperties_adds o r.2 r.1).bind fun _ => (linkAll_adds o r.2 root extraVolumes).bind fun _ => .pure _

section Creating
variable {o : Outside} {c : ContainerConfig} {root : ℕ} {extraVolumes : List ℕ} {w t : World} {e : Err}

/-- An allocation that the call has taken when it fails. -/
def Took (o : Outside) (c : ContainerConfig) (path : String) (n : ℕ) (mtn mtn' : Store) : Prop :=
  ∃ a, o.fault .create = none ∧ c.asksMtn ∧ useAlloc c.mtnCfg c.netid c.boxName mtn = (.ok a,mtn') ∧
    LateFails o n (withAllocation (c.properties o path) a)

theorem createContainer_error (h : createContainer o c root extraVolumes w = (.error e,t)) :
    t = w ∨ ∃ w₁ w₂, w₁.log = w.log ++ [.create c.id] ∧ w₁.volumes = w.volumes ∧ Adds w₁ w₂ ∧
      t = w₂.record [.destroy c.id] ∧
      (w₁.mtn.db = w.mtn.db ∨ Took o c (w.volume root).path extraVolumes.length w.mtn w₁.mtn) := by
  cases hf : o.fault .create with
  | some e' =>
    rw [createContainer_of_fault hf] at h
    cases h
    exact Or.inl rfl
  | none =>
    rw [createContainer_of_create hf] at h
    obtain ⟨u,hu,rfl⟩ := of_onError_error h
    refine Or.inr ?_
    by_cases hask : c.asksMtn
    · have hn := network_of_asksMtn hask (c.properties o (w.volume root).path) (w.record [.create c.id])
      rw [record_mtn] at hn
      rcases hal : useAlloc c.mtnCfg c.netid c.boxName w.mtn with ⟨r,st⟩
      rw [hal] at hn
      cases r with
      | ok a =>
        rw [bind_ok hn] at hu
        refine ⟨{ w.record [.create c.id] with mtn := st },u,rfl,rfl,(finish_adds o root extraVolumes _).of_eq hu,rfl,
          Or.inr ⟨a,hf,hask,hal,?_⟩⟩
        exact (finish_failsIff o root extraVolumes _).error hu
      | error e' =>
        rw [bind_error hn] at hu
        cases hu
        exact ⟨{ w.record [.create c.id] with mtn := st },_,rfl,rfl,refl_of Adds _,rfl,
          Or.inl (transaction_fails _ _ _ hal nofun)⟩
      | panic p =>
        rw [bind_panic hn] at hu
        cases hu
    · rw [bind_ok (network_of_not_asksMtn hask _ _)] at hu
      exact ⟨w.record [.create c.id],u,rfl,rfl,(finish_adds o root extraVolumes _).of_eq hu,rfl,Or.inl rfl⟩

theorem Took.containerFails {mtn mtn' : Store}
    (h : Took o c (join c.root "volume") c.profile.extraVolumes.length mtn mtn') : ContainerFails o c mtn := by
  obtain ⟨a,-,hask,hal,hlate⟩ := h
  refine Or.inr ?_
  rw [if_pos hask, hal]
  exact hlate

theorem Took.mtn_eq {mtn' : Store} (h : Took o c (w.volume root).path extraVolumes.length w.mtn mtn')
    (hm : createContainer o c root extraVolumes w = (.error e,t)) : t.mtn = mtn' := by
  obtain ⟨a,hf,hask,hal,-⟩ := h
  rw [createContainer_of_create hf] at hm
  obtain ⟨u,hu,rfl⟩ := of_onError_error hm
  have hn := network_of_asksMtn hask (c.properties o (w.volume root).path) (w.record [.create c.id])
  rw [record_mtn, hal] at hn
  rw [bind_ok hn] at hu
  exact ((finish_adds o root extraVolumes _).of_eq hu).mtn

theorem createContainer_error_log (hun : ∀ id, .create id ∉ w.log)
    (h : createContainer o c root extraVolumes w = (.error e,t)) :
    (∃ l, t.log = w.log ++ l ∧ ∀ call ∈ l, call = .create c.id ∨ call.late = true) ∧
      c.id ∉ containers t.log ∧ ∀ v, (t.volume v).storagepath = (w.volume v).storagepath := by
  rcases createContainer_error h with rfl | ⟨w₁,w₂,hlog,hvol,hadd,rfl,-⟩
  · exact ⟨⟨[],by simp,by simp⟩,notMem_containers (hun c.id),fun _ => rfl⟩
  · obtain ⟨l,hl,hlate⟩ := hadd.log
    refine ⟨⟨[.create c.id] ++ l ++ [.destroy c.id],?_,?_⟩,?_,?_⟩
    · simp [World.record, hl, hlog]
    · intro call hc
      simp only [List.mem_append, List.mem_singleton] at hc
      rcases hc with (hc | hc) | rfl
      · exact Or.inl hc
      · exact Or.inr (hlate call hc)
      · exact Or.inr rfl
    · exact notMem_containers_append (by simp) (Or.inr (by simp))
    · intro v
      have hv : w₁.volume v = w.volume v := by
        unfold World.volume
        rw [hvol]
      rw [← hv]
      exact hadd.storagepath v

end Creating

/-! ## The whole call -/

section Whole
variable {o : Outside} {c : ContainerConfig} {mtn : Store}

theorem newContainer_error {w₀ t : World} {e : Err} (h : newContainer o c w₀ = (.error e,t)) :
    createRootVolume o c w₀ = (.error e,t) ∨
    ∃ root w, createRootVolume o c w₀ = (.ok root,w) ∧
      ((∃ u, createExtraVolumes o c root w = (.error e,u) ∧ t = (destroyVolume root u).2) ∨
      ∃ extraVolumes w' u, createExtraVolumes o c root w = (.ok extraVolumes,w') ∧
        createContainer o c root extraVolumes w' = (.error e,u) ∧ t = (destroyVolume root u).2) := by
  rcases of_bind_error h with h | ⟨root,w,hroot,h⟩
  · exact Or.inl h
  refine Or.inr ⟨root,w,hroot,?_⟩
  rcases of_bind_error h with h | ⟨extraVolumes,w',hextra,h⟩
  · exact Or.inl (of_onError_error h)
  refine Or.inr ⟨extraVolumes,w',?_⟩
  rcases of_bind_error h with h | ⟨c',w'',-,h⟩
  · obtain ⟨u,hu,ht⟩ := of_onError_error h
    exact ⟨u,of_onError_ok hextra,hu,ht⟩
  · cases h

theorem newContainer_of_createContainer {root : ℕ} {w w' u : World} {extraVolumes : List ℕ} {e : Err}
    (hroot : createRootVolume o c (.start mtn) = (.ok root,w))
    (hextra : createExtraVolumes o c root w = (.ok extraVolumes,w'))
    (hcont : createContainer o c root extraVolumes w' = (.error e,u)) :
    newContainer o c (.start mtn) = (.error e,(destroyVolume root u).2) := by
  unfold newContainer
  rw [bind_ok hroot, bind_ok (show onError _ _ w = _ by rw [onError, hextra])]
  exact bind_error (show onError _ _ w' = _ by rw [onError, hcont]) _

theorem exists_volumes (mtn : Store) (h : ¬VolumesFail o c) :
    ∃ root w extraVolumes w', createRootVolume o c (.start mtn) = (.ok root,w) ∧
      createExtraVolumes o c root w = (.ok extraVolumes,w') := by
  unfold VolumesFail at h
  rw [← or_assoc, not_or] at h
  obtain ⟨root,w,hroot⟩ := (createRootVolume_failsIff o c).exists_ok h.1 (.start mtn)
  obtain ⟨extraVolumes,w',hextra⟩ := (createExtraVolumes_failsIff o c root).exists_ok h.2 w
  exact ⟨root,w,extraVolumes,w',hroot,hextra⟩

theorem not_volumesFail {root : ℕ} {w w' : World} {extraVolumes : List ℕ}
    (hroot : createRootVolume o c (.start mtn) = (.ok root,w))
    (hextra : createExtraVolumes o c root w = (.ok extraVolumes,w')) : ¬VolumesFail o c := by
  have h1 := (createRootVolume_failsIff o c).ok hroot
  have h2 := (createExtraVolumes_failsIff o c root).ok hextra
  rw [VolumesFail, ← or_assoc, not_or]
  exact ⟨h1,h2⟩

def SameMtn (w t : World) : Prop := t.mtn = w.mtn

instance : IsPreorder World SameMtn where
  refl _ := rfl
  trans _ _ _ h k := Eq.trans k h

theorem trying_sameMtn (o : Outside) (p : Point) (call : Call) : Moves SameMtn (trying o p call) := by
  unfold trying
  cases o.fault p with
  | none => exact fun _ => rfl
  | some e => exact .throw _

theorem destroyVolume_mtn (v : ℕ) (w : World) : (destroyVolume v w).2.mtn = w.mtn := rfl

theorem destroyVolume_sameMtn (v : ℕ) : Moves SameMtn (destroyVolume v) := destroyVolume_mtn v

theorem cleanUpOnError_sameMtn (volumes : List ℕ) : Moves SameMtn (cleanUpOnError volumes) :=
  Moves.forM destroyVolume_sameMtn

theorem createRootVolume_sameMtn (o : Outside) (c : ContainerConfig) : Moves SameMtn (createRootVolume o c) :=
  (trying_sameMtn o _ _).bind fun _ => Moves.bind (fun _ => rfl) fun v =>
    ((trying_sameMtn o _ _).onError (destroyVolume_sameMtn v)).bind fun _ => .pure v

theorem createStorage_sameMtn (i : ℕ) (vp : VolumeProfile) (volumes : List ℕ) (v : ℕ) :
    Moves SameMtn (createStorage o c i vp volumes v) := by
  unfold createStorage
  dsimp only
  split
  · exact ((trying_sameMtn o _ _).onError (cleanUpOnError_sameMtn volumes)).bind fun _ =>
      Moves.bind (fun _ => rfl) fun _ => .pure _
  · exact .pure _

theorem createExtra_sameMtn (rp : String) (i : ℕ) (volumes : List ℕ) (l : List VolumeProfile) :
    Moves SameMtn (createExtra o c rp i volumes l) := by
  induction l generalizing i volumes with
  | nil => exact .pure _
  | cons vp rest ih =>
    unfold createExtra
    split
    · exact (cleanUpOnError_sameMtn volumes).bind fun _ => .throw _
    · exact ((trying_sameMtn o _ _).onError (cleanUpOnError_sameMtn volumes)).bind fun _ =>
        Moves.bind (fun _ => rfl) fun v => (createStorage_sameMtn i vp _ v).bind fun _ =>
          ((trying_sameMtn o _ _).onError (cleanUpOnError_sameMtn _)).bind fun _ => ih _ _

theorem createExtraVolumes_sameMtn (root : ℕ) : Moves SameMtn (createExtraVolumes o c root) :=
  Moves.read.bind fun _ => createExtra_sameMtn _ _ _ _

theorem volumes_mtn {root : ℕ} {w w' : World} {extraVolumes : List ℕ}
    (hroot : createRootVolume o c (.start mtn) = (.ok root,w))
    (hextra : createExtraVolumes o c root w = (.ok extraVolumes,w')) : w'.mtn = mtn :=
  ((createExtraVolumes_sameMtn root).of_eq hextra).trans ((createRootVolume_sameMtn o c).of_eq hroot)

/-! ## Small configurations -/

def boxConfig (network : Map) (extraVolumes : List VolumeProfile) : ContainerConfig :=
  ⟨⟨"registry","inherited",network,"",[],∅,∅,extraVolumes⟩,"app","/app/run","","",∅,∅,lanCfg,"box","/cont","app_1","layer",
    true,false,"overlay",false,"","","label"⟩

def failing (p : Point) : Outside := ⟨fun q => if q = p then some "failed" else none,[],[],[]⟩

def asksLan : Map := ((∅ : Map).insert "mtn" "enable").insert "netid" "lan"

/-! ## Allocations -/

/-- A failed `newContainer` leaves the used allocations as they were. -/
def KeepsHeld (o : Outside) (c : ContainerConfig) (mtn : Store) : Prop :=
  ∀ e t, newContainer o c (.start mtn) = (.error e,t) → held t.mtn.db = held mtn.db

/-- The call does not fail after `UseAlloc` has given it an allocation. -/
def TakesNone (o : Outside) (c : ContainerConfig) (mtn : Store) : Prop :=
  VolumesFail o c ∨ ∀ mtn', ¬Took o c (join c.root "volume") c.profile.extraVolumes.length mtn mtn'

theorem TakesNone.keepsHeld (h : TakesNone o c mtn) : KeepsHeld o c mtn := by
  intro e t hm
  rcases newContainer_error hm with hroot | ⟨root,w,hroot,⟨u,hu,rfl⟩ | ⟨extraVolumes,w',u,hextra,hu,rfl⟩⟩
  · rw [show t.mtn = mtn from (createRootVolume_sameMtn o c).of_eq hroot]
  · have h1 : w.mtn = mtn := (createRootVolume_sameMtn o c).of_eq hroot
    have h2 : u.mtn = w.mtn := (createExtraVolumes_sameMtn root).of_eq hu
    rw [destroyVolume_mtn, h2, h1]
  · obtain ⟨htr,-,hlen⟩ := createExtraVolumes_ok (createRootVolume_ok hroot) hextra
    have hmtn := volumes_mtn hroot hextra
    rw [destroyVolume_mtn]
    rcases createContainer_error hu with rfl | ⟨w₁,w₂,-,-,hadd,rfl,hdb' | htook⟩
    · rw [hmtn]
    · rw [record_mtn, hadd.mtn, hdb', hmtn]
    · exfalso
      rw [htr.rootPath, hlen, hmtn] at htook
      exact h.elim (not_volumesFail hroot hextra) fun hn => hn _ htook

theorem KeepsHeld.takesNone (hdb : WellKeyed mtn.db) (hfresh : FreshFor mtn.db c.netid mtn.env) (h : KeepsHeld o c mtn) :
    TakesNone o c mtn := by
  unfold TakesNone
  by_contra hn
  push Not at hn
  obtain ⟨hvol,mtn',htook⟩ := hn
  obtain ⟨root,w,extraVolumes,w',hroot,hextra⟩ := exists_volumes mtn hvol
  obtain ⟨htr,-,hlen⟩ := createExtraVolumes_ok (createRootVolume_ok hroot) hextra
  have hmtn := volumes_mtn hroot hextra
  obtain ⟨e,u,hu⟩ := (createContainer_error_iff htr.rootPath hlen).mpr (by rw [hmtn]; exact htook.containerFails)
  have hheld := h e _ (newContainer_of_createContainer hroot hextra hu)
  have htook' := htook
  rw [← htr.rootPath, ← hlen, ← hmtn] at htook'
  rw [destroyVolume_mtn, htook'.mtn_eq hu] at hheld
  obtain ⟨a,-,-,hal,-⟩ := htook
  exact (useAlloc_handed hdb hfresh hal).acquires.acquire_ne hheld

/-- A failed `newContainer` leaves the used allocations as they were when it does not fail
after `UseAlloc` has given it one, whatever the database; and only then, if the database is
well keyed and the allocator answers with new ids. -/
theorem newContainer_held_iff (o : Outside) (c : ContainerConfig) (mtn : Store) :
    (TakesNone o c mtn → KeepsHeld o c mtn) ∧
    (WellKeyed mtn.db → FreshFor mtn.db c.netid mtn.env → (KeepsHeld o c mtn ↔ TakesNone o c mtn)) :=
  ⟨TakesNone.keepsHeld,fun hdb hfresh => ⟨KeepsHeld.takesNone hdb hfresh,TakesNone.keepsHeld⟩⟩

/-- The creation fails before the allocation is taken. -/
theorem newContainer_held_createFails :
    ∃ e t, newContainer (failing .create) (boxConfig asksLan []) (.start ⟨lanDb,silent⟩) = (.error e,t) ∧
      held t.mtn.db = held lanDb := by
  refine ⟨.text "failed",_,rfl,?_⟩
  have hiff := (newContainer_held_iff (failing .create) (boxConfig asksLan []) ⟨lanDb,silent⟩).2 lanDb_wellKeyed (by decide)
  refine hiff.mpr (Or.inr ?_) _ _ rfl
  rintro mtn' ⟨a,hf,-⟩
  cases hf

/-- The address cannot be set: the allocation stays marked used. -/
theorem newContainer_leaks_allocation :
    ∃ e t, newContainer (failing (.setProperty "ip")) (boxConfig asksLan []) (.start ⟨lanDb,silent⟩) = (.error e,t) ∧
      ("lan","a1") ∈ held t.mtn.db ∧ held t.mtn.db ≠ held lanDb := by
  have hfree : ("lan","a1") ∉ held lanDb := by
    rintro ⟨a,ha,hu⟩
    cases ha
    cases hu
  have hused : ("lan","a1") ∈ held (newContainer (failing (.setProperty "ip")) (boxConfig asksLan [])
      (.start ⟨lanDb,silent⟩)).2.mtn.db :=
    ⟨⟨"eth0","host","::1","a1","lan","box",true⟩,rfl,rfl⟩
  refine ⟨.text "failed",_,rfl,hused,?_⟩
  intro he
  exact hfree (he.subset hused)

/-! ## Volumes and containers -/

/-- A failed `newContainer` leaves nothing behind exactly when the profile has no extra
volumes, or the volumes could not be created, or `CreateContainer` does not fail. -/
theorem newContainer_noLeak_iff (o : Outside) (c : ContainerConfig) (mtn : Store) :
    (∀ e t, newContainer o c (.start mtn) = (.error e,t) → NoLeak c t) ↔
      c.profile.extraVolumes = [] ∨ VolumesFail o c ∨ ¬ContainerFails o c mtn := by
  constructor
  · intro h
    by_contra hn
    simp only [not_or, not_not] at hn
    obtain ⟨hne,hvol,hcont⟩ := hn
    obtain ⟨root,w,extraVolumes,w',hroot,hextra⟩ := exists_volumes mtn hvol
    have htr := createRootVolume_ok hroot
    obtain ⟨htr',hall,hlen⟩ := createExtraVolumes_ok htr hextra
    rw [← volumes_mtn hroot hextra] at hcont
    obtain ⟨e,u,hu⟩ := (createContainer_error_iff htr'.rootPath hlen).mpr hcont
    have hleak := h e _ (newContainer_of_createContainer hroot hextra hu)
    obtain ⟨⟨l,hl,hcalls⟩,-,-⟩ := createContainer_error_log htr'.uncreated hu
    cases extraVolumes with
    | nil => exact hne (List.length_eq_zero_iff.mp hlen.symm)
    | cons v rest =>
      obtain ⟨p,properties,hc⟩ := hall v List.mem_cons_self
      have hd := hleak.volumes v p properties
        (List.mem_append_left _ (by rw [hl]; exact List.mem_append_left _ hc))
      rcases List.mem_append.mp hd with hd | hd
      · rw [hl] at hd
        rcases List.mem_append.mp hd with hd | hd
        · exact htr'.undestroyed v hd
        · rcases hcalls _ hd with he | he <;> cases he
      · exact htr'.rootOther (eq_of_mem_destroyCalls hd ▸ List.mem_cons_self)
  · intro hcond e t h
    rcases newContainer_error h with hroot | ⟨root,w,hroot,⟨u,hu,rfl⟩ | ⟨extraVolumes,w',u,hextra,hu,rfl⟩⟩
    · exact createRootVolume_error hroot
    · exact (createExtraVolumes_error (createRootVolume_ok hroot) hu).destroyRoot
    · obtain ⟨htr,-,hlen⟩ := createExtraVolumes_ok (createRootVolume_ok hroot) hextra
      rcases hcond with hnil | hvol | hcont
      · rw [hnil, List.length_nil, List.length_eq_zero_iff] at hlen
        subst hlen
        obtain ⟨⟨l,hl,hcalls⟩,hgone,hstorage⟩ := createContainer_error_log htr.uncreated hu
        refine Cleaned.destroyRoot ⟨?_,?_,hgone⟩
        · intro v p properties hc
          rw [hl] at hc
          rcases List.mem_append.mp hc with hc | hc
          · exact (htr.made v p properties hc).imp_right nofun
          · rcases hcalls _ hc with he | he <;> cases he
        · intro v p hp hne
          rw [hstorage] at hp
          exact absurd (htr.storage v p hp hne) List.not_mem_nil
      · exact absurd hvol (not_volumesFail hroot hextra)
      · rw [← volumes_mtn hroot hextra] at hcont
        exact absurd ((createContainer_error_iff htr.rootPath hlen).mp ⟨e,u,hu⟩) hcont

/-- The container cannot be created: the extra volume is left. -/
theorem newContainer_leaks_volume :
    ∃ e t, newContainer (failing .create) (boxConfig ∅ [⟨"data",∅⟩]) (.start ⟨lanDb,silent⟩) = (.error e,t) ∧
      (∃ p properties, .createVolume 1 p properties ∈ t.log) ∧ .destroyVolume 1 ∉ t.log ∧
      ¬NoLeak (boxConfig ∅ [⟨"data",∅⟩]) t := by
  have hmade : ∃ p properties, .createVolume 1 p properties ∈
      (newContainer (failing .create) (boxConfig ∅ [⟨"data",∅⟩]) (.start ⟨lanDb,silent⟩)).2.log :=
    ⟨_,_,.tail _ (.tail _ (.tail _ (.head _)))⟩
  have hkept : .destroyVolume 1 ∉
      (newContainer (failing .create) (boxConfig ∅ [⟨"data",∅⟩]) (.start ⟨lanDb,silent⟩)).2.log := by
    intro hd
    have hd' : Call.destroyVolume 1 ∈ ([.mkdirAll _,.createVolume 0 _ _,.mkdirAll _,.createVolume 1 _ _,
      .destroyVolume 0,.unlinkVolume _ _,.removeAll _] : List Call) := hd
    simp at hd'
  refine ⟨.text "failed",_,rfl,hmade,hkept,?_⟩
  intro h
  obtain ⟨p,properties,hc⟩ := hmade
  exact hkept (h.volumes 1 p properties hc)

end Whole

end Stout.Porto
