import Stout.Porto.Container

/-! # The volumes of a container

What the calls of porto and of the file system amount to, and what the two phases that
create volumes leave: all volumes tracked if they succeed, nothing but the root if they
fail.
-/
namespace Stout.Porto
open Paths (join)
open Prog Mtn

/-! ## What is there according to the log -/

def below (dir path : String) : Bool := path = dir || (dir.toList ++ ['/']).isPrefixOf path.toList

def dirsStep (dirs : List String) : Call → List String
  | .mkdirAll path => path :: dirs
  | .removeAll path => dirs.filter fun d => !below path d
  | _ => dirs

/-- The directories made and not removed. -/
def dirs (log : List Call) : List String := log.foldl dirsStep []

def containersStep (containers : List String) : Call → List String
  | .create id => id :: containers
  | .destroy id => containers.filter fun d => d ≠ id
  | _ => containers

def containers (log : List Call) : List String := log.foldl containersStep []

theorem mem_dirsStep {ds : List String} {call : Call} {p : String} (hm : call ≠ .mkdirAll p)
    (h : p ∈ dirsStep ds call) : p ∈ ds ∧ call ≠ .removeAll p := by
  cases call with
  | mkdirAll path =>
    rcases List.mem_cons.mp h with rfl | h
    · exact absurd rfl hm
    · exact ⟨h,nofun⟩
  | removeAll path =>
    obtain ⟨h1,h2⟩ := List.mem_filter.mp h
    refine ⟨h1,?_⟩
    intro he
    cases he
    simp [below] at h2
  | _ => exact ⟨h,nofun⟩

theorem mem_containersStep {cs : List String} {call : Call} {id : String} (hm : call ≠ .create id)
    (h : id ∈ containersStep cs call) : id ∈ cs ∧ call ≠ .destroy id := by
  cases call with
  | create id' =>
    rcases List.mem_cons.mp h with rfl | h
    · exact absurd rfl hm
    · exact ⟨h,nofun⟩
  | destroy id' =>
    obtain ⟨h1,h2⟩ := List.mem_filter.mp h
    refine ⟨h1,?_⟩
    intro he
    cases he
    simp at h2
  | _ => exact ⟨h,nofun⟩

theorem mem_foldl_of_not_made {step : List String → Call → List String} {made removed : Call} {p : String}
    (hstep : ∀ ds call, call ≠ made → p ∈ step ds call → p ∈ ds ∧ call ≠ removed) {l : List Call} {ds : List String}
    (hl : made ∉ l) (h : p ∈ l.foldl step ds) : p ∈ ds ∧ removed ∉ l := by
  induction l generalizing ds with
  | nil => exact ⟨h,List.not_mem_nil⟩
  | cons call l ih =>
    obtain ⟨h1,h2⟩ := ih (fun hm => hl (List.mem_cons_of_mem call hm)) h
    obtain ⟨h3,h4⟩ := hstep ds call (fun he => hl (he ▸ List.mem_cons_self)) h1
    refine ⟨h3,?_⟩
    intro hm
    rcases List.mem_cons.mp hm with rfl | hm
    · exact h4 rfl
    · exact h2 hm

theorem notMem_dirs_append {l₁ l₂ : List Call} {p : String} (hm : .mkdirAll p ∉ l₂)
    (h : p ∉ dirs l₁ ∨ .removeAll p ∈ l₂) : p ∉ dirs (l₁ ++ l₂) := by
  intro hp
  rw [dirs, List.foldl_append] at hp
  obtain ⟨h1,h2⟩ := mem_foldl_of_not_made (fun _ _ => mem_dirsStep) hm hp
  rcases h with h | h
  · exact h h1
  · exact h2 h

theorem notMem_containers_append {l₁ l₂ : List Call} {id : String} (hm : .create id ∉ l₂)
    (h : id ∉ containers l₁ ∨ .destroy id ∈ l₂) : id ∉ containers (l₁ ++ l₂) := by
  intro hp
  rw [containers, List.foldl_append] at hp
  obtain ⟨h1,h2⟩ := mem_foldl_of_not_made (fun _ _ => mem_containersStep) hm hp
  rcases h with h | h
  · exact h h1
  · exact h2 h

theorem notMem_containers {l : List Call} {id : String} (hm : .create id ∉ l) : id ∉ containers l := by
  intro hp
  have := (mem_foldl_of_not_made (fun _ _ => mem_containersStep) hm hp).1
  cases this

/-- Each volume created has had `Destroy` called on it, each storage directory made has
been removed, and the container is not there. -/
structure NoLeak (c : ContainerConfig) (w : World) : Prop where
  volumes : ∀ v path properties, .createVolume v path properties ∈ w.log → .destroyVolume v ∈ w.log
  storage : ∀ v p, (w.volume v).storagepath = some p → p ≠ "" → p ∉ dirs w.log
  container : c.id ∉ containers w.log

/-! ## Volumes -/

/-- The volumes created so far are the root and those of the list, all of them still
there, and no container is. -/
structure Tracked (w : World) (root : ℕ) (path : String) (volumes : List ℕ) : Prop where
  made : ∀ v p properties, .createVolume v p properties ∈ w.log → v = root ∨ v ∈ volumes
  storage : ∀ v p, (w.volume v).storagepath = some p → p ≠ "" → v ∈ volumes
  undestroyed : ∀ v, .destroyVolume v ∉ w.log
  uncreated : ∀ id, .create id ∉ w.log
  known : ∀ v ∈ volumes, v < w.volumes.length
  rootKnown : root < w.volumes.length
  rootPath : (w.volume root).path = path
  rootOther : root ∉ volumes

structure Cleaned (c : ContainerConfig) (w : World) (root : ℕ) : Prop where
  made : ∀ v p properties, .createVolume v p properties ∈ w.log → v = root ∨ .destroyVolume v ∈ w.log
  storage : ∀ v p, (w.volume v).storagepath = some p → p ≠ "" → p ∉ dirs w.log
  container : c.id ∉ containers w.log

theorem volume_append (w : World) (x : Volume) (v : ℕ) :
    World.volume { w with volumes := w.volumes ++ [x] } v = if v = w.volumes.length then x else w.volume v := by
  unfold World.volume
  rw [List.getD_eq_getElem?_getD, List.getD_eq_getElem?_getD, List.getElem?_append]
  split
  · rename_i h
    rw [if_neg (by omega)]
  · rename_i h
    by_cases he : v = w.volumes.length
    · subst he
      simp
    · rw [if_neg he, List.getElem?_eq_none (by simp; omega), List.getElem?_eq_none (by omega)]

theorem volume_modify (w : World) (u : ℕ) (f : Volume → Volume) (v : ℕ) :
    World.volume { w with volumes := w.volumes.modify u f } v =
      if u = v ∧ v < w.volumes.length then f (w.volume v) else w.volume v := by
  unfold World.volume
  rw [List.getD_eq_getElem?_getD, List.getD_eq_getElem?_getD, List.getElem?_modify]
  by_cases hv : v < w.volumes.length
  · by_cases hu : u = v
    · simp [hv, hu]
    · simp [hv, hu]
  · rw [if_neg (fun h => hv h.2), List.getElem?_eq_none (by omega)]
    rfl

def Call.undoes : Call → Bool
  | .destroyVolume _ | .unlinkVolume .. | .removeAll _ => true
  | _ => false

theorem undoes_of_mem_destroyCalls {volume : Volume} {v : ℕ} {call : Call} (h : call ∈ volume.destroyCalls v) :
    call.undoes = true := by
  unfold Volume.destroyCalls at h
  simp only [List.mem_append, List.mem_cons, List.not_mem_nil, or_false] at h
  rcases h with ((rfl | h) | rfl | rfl) | h
  · rfl
  · split at h
    · simp only [List.mem_cons, List.not_mem_nil, or_false] at h
      rcases h with rfl | rfl <;> rfl
    · cases h
  · rfl
  · rfl
  · split at h
    · split at h
      · rw [List.mem_singleton.mp h]
        rfl
      · cases h
    · cases h

theorem eq_of_mem_destroyCalls {volume : Volume} {u v : ℕ} (h : .destroyVolume u ∈ volume.destroyCalls v) : u = v := by
  unfold Volume.destroyCalls at h
  simp only [List.mem_append, List.mem_cons, List.not_mem_nil, or_false, reduceCtorEq, Call.destroyVolume.injEq] at h
  rcases h with (h | h) | h
  · exact h
  · split at h
    · simp at h
    · cases h
  · split at h
    · split at h
      · simp at h
      · cases h
    · cases h

theorem destroyVolume_mem (volume : Volume) (v : ℕ) : .destroyVolume v ∈ volume.destroyCalls v := by
  simp [Volume.destroyCalls]

theorem removeAll_mem {volume : Volume} {v : ℕ} {p : String} (hp : volume.storagepath = some p) (hne : p ≠ "") :
    .removeAll p ∈ volume.destroyCalls v := by
  simp [Volume.destroyCalls, hp, hne]

theorem cleanUpOnError_apply (volumes : List ℕ) (w : World) :
    cleanUpOnError volumes w = (.ok (),w.record (volumes.flatMap fun v => (w.volume v).destroyCalls v)) := by
  induction volumes generalizing w with
  | nil => simp [cleanUpOnError, World.record, pure_apply]
  | cons v volumes ih =>
    have hstep : cleanUpOnError (v :: volumes) w = cleanUpOnError volumes (w.record ((w.volume v).destroyCalls v)) := rfl
    rw [hstep, ih]
    simp only [World.record, List.flatMap_cons, List.append_assoc]
    rfl

theorem Tracked.cleanUp {w : World} {root : ℕ} {path : String} {volumes : List ℕ} (h : Tracked w root path volumes)
    (c : ContainerConfig) : Cleaned c (cleanUpOnError volumes w).2 root := by
  rw [cleanUpOnError_apply]
  have hundo : ∀ call ∈ volumes.flatMap (fun v => (w.volume v).destroyCalls v), call.undoes = true := by
    intro call hc
    obtain ⟨v,-,hv⟩ := List.mem_flatMap.mp hc
    exact undoes_of_mem_destroyCalls hv
  refine ⟨?_,?_,?_⟩
  · intro v p properties hc
    rcases List.mem_append.mp hc with hc | hc
    · refine (h.made v p properties hc).imp_right fun hv => ?_
      exact List.mem_append_right _ (List.mem_flatMap.mpr ⟨v,hv,destroyVolume_mem _ v⟩)
    · cases hundo _ hc
  · intro v p hp hne
    refine notMem_dirs_append ?_ (Or.inr ?_)
    · intro hc
      cases hundo _ hc
    · exact List.mem_flatMap.mpr ⟨v,h.storage v p hp hne,removeAll_mem hp hne⟩
  · refine notMem_containers fun hc => ?_
    rcases List.mem_append.mp hc with hc | hc
    · exact h.uncreated c.id hc
    · cases hundo _ hc

theorem trying_ok {o : Outside} {p : Point} {call : Call} {w t : World} {u : Unit}
    (h : trying o p call w = (.ok u,t)) : t = w.record [call] := by
  cases hf : o.fault p with
  | none =>
    rw [trying, hf] at h
    cases h
    rfl
  | some e =>
    rw [trying, hf] at h
    cases h

theorem trying_error {o : Outside} {p : Point} {call : Call} {w t : World} {e : Err}
    (h : trying o p call w = (.error e,t)) : t = w := by
  cases hf : o.fault p with
  | none =>
    rw [trying, hf] at h
    cases h
  | some e =>
    rw [trying, hf] at h
    cases h
    rfl

theorem trying_quiet {o : Outside} {p : Point} (hf : o.fault p = none) (call : Call) (w : World) :
    trying o p call w = (.ok (),w.record [call]) := by
  unfold trying
  rw [hf]
  rfl

theorem onError_trying_quiet {o : Outside} {p : Point} (hf : o.fault p = none) (call : Call) (cleanup : Run Unit) (w : World) :
    onError (trying o p call) cleanup w = (.ok (),w.record [call]) := by
  unfold onError
  rw [trying_quiet hf]

theorem onError_trying_fails {o : Outside} {p : Point} {e : String} (hf : o.fault p = some e) (call : Call) (cleanup : Run Unit)
    (w : World) : onError (trying o p call) cleanup w = (.error (.text e),(cleanup w).2) := by
  unfold onError trying
  rw [hf]
  rfl

section Tracking
variable {w : World} {root : ℕ} {path : String} {volumes : List ℕ}

theorem Tracked.record (h : Tracked w root path volumes) {call : Call}
    (hmade : ∀ v p properties, call = .createVolume v p properties → v ∈ volumes)
    (hdestroy : ∀ v, call ≠ .destroyVolume v) (hcreate : ∀ id, call ≠ .create id) :
    Tracked (w.record [call]) root path volumes where
  made v p properties hc := by
    rcases List.mem_append.mp hc with hc | hc
    · exact h.made v p properties hc
    · exact Or.inr (hmade v p properties (List.mem_singleton.mp hc).symm)
  storage := h.storage
  undestroyed v hc := by
    rcases List.mem_append.mp hc with hc | hc
    · exact h.undestroyed v hc
    · exact hdestroy v (List.mem_singleton.mp hc).symm
  uncreated id hc := by
    rcases List.mem_append.mp hc with hc | hc
    · exact h.uncreated id hc
    · exact hcreate id (List.mem_singleton.mp hc).symm
  known := h.known
  rootKnown := h.rootKnown
  rootPath := h.rootPath
  rootOther := h.rootOther

theorem Tracked.mkdirAll (h : Tracked w root path volumes) (p : String) :
    Tracked (w.record [.mkdirAll p]) root path volumes :=
  h.record nofun nofun nofun

theorem Tracked.createVolume (h : Tracked w root path volumes) {v : ℕ} (hv : v ∈ volumes) (p : String)
    (properties : Map) : Tracked (w.record [.createVolume v p properties]) root path volumes := by
  refine h.record ?_ nofun nofun
  intro u q ps he
  cases he
  exact hv

theorem Tracked.newVolume (h : Tracked w root path volumes) {x : Volume} (hx : ∀ p ∈ x.storagepath, p = "") :
    Tracked { w with volumes := w.volumes ++ [x] } root path (volumes ++ [w.volumes.length]) where
  made v q properties hc := (h.made v q properties hc).imp_right (List.mem_append_left _)
  storage v p hp hne := by
    rw [volume_append] at hp
    split at hp
    · exact absurd (hx p hp) hne
    · exact List.mem_append_left _ (h.storage v p hp hne)
  undestroyed := h.undestroyed
  uncreated := h.uncreated
  known v hv := by
    rw [List.length_append, List.length_singleton]
    rcases List.mem_append.mp hv with hv | hv
    · have := h.known v hv
      omega
    · rw [List.mem_singleton.mp hv]
      omega
  rootKnown := by
    rw [List.length_append, List.length_singleton]
    have := h.rootKnown
    omega
  rootPath := by
    have := h.rootKnown
    rw [volume_append, if_neg (by omega)]
    exact h.rootPath
  rootOther hr := by
    rcases List.mem_append.mp hr with hr | hr
    · exact h.rootOther hr
    · have := h.rootKnown
      rw [← List.mem_singleton.mp hr] at this
      exact lt_irrefl _ this

theorem Tracked.update (h : Tracked w root path volumes) {v : ℕ} (hv : v ∈ volumes) (f : Volume → Volume) :
    Tracked { w with volumes := w.volumes.modify v f } root path volumes where
  made := h.made
  storage u p hp hne := by
    rw [volume_modify] at hp
    split at hp
    · rename_i he
      exact he.1 ▸ hv
    · exact h.storage u p hp hne
  undestroyed := h.undestroyed
  uncreated := h.uncreated
  known u hu := by
    rw [List.length_modify]
    exact h.known u hu
  rootKnown := by
    rw [List.length_modify]
    exact h.rootKnown
  rootPath := by
    rw [volume_modify, if_neg]
    · exact h.rootPath
    · rintro ⟨rfl,-⟩
      exact h.rootOther hv
  rootOther := h.rootOther

theorem Tracked.tryOrCleanUp (h : Tracked w root path volumes) {o : Outside} {p : Point} {call : Call} {t : World}
    {e : Err} (hm : onError (trying o p call) (cleanUpOnError volumes) w = (.error e,t)) (c : ContainerConfig) :
    Cleaned c t root := by
  obtain ⟨u,hu,rfl⟩ := of_onError_error hm
  rw [trying_error hu]
  exact h.cleanUp c

variable {o : Outside} {c : ContainerConfig}

theorem createStorage_ok {i v : ℕ} {vp : VolumeProfile} (h : Tracked w root path volumes) (hv : v ∈ volumes)
    {t : World} {properties : Map} (hm : createStorage o c i vp volumes v w = (.ok properties,t)) :
    Tracked t root path volumes ∧ ∀ call ∈ w.log, call ∈ t.log := by
  unfold createStorage at hm
  dsimp only at hm
  split at hm
  · obtain ⟨_,w₁,h₁,hm⟩ := of_bind_ok hm
    have hw := trying_ok (of_onError_ok h₁)
    subst hw
    obtain ⟨_,w₂,h₂,hm⟩ := of_bind_ok hm
    cases h₂
    cases hm
    exact ⟨(h.mkdirAll _).update hv _,fun call hc => List.mem_append_left _ hc⟩
  · cases hm
    exact ⟨h,fun call hc => hc⟩

theorem createStorage_error {i v : ℕ} {vp : VolumeProfile} (h : Tracked w root path volumes) {t : World} {e : Err}
    (hm : createStorage o c i vp volumes v w = (.error e,t)) : Cleaned c t root := by
  unfold createStorage at hm
  dsimp only at hm
  split at hm
  · rcases of_bind_error hm with hm | ⟨_,w₁,-,hm⟩
    · exact h.tryOrCleanUp hm c
    · rcases of_bind_error hm with hm | ⟨_,w₂,-,hm⟩
      · cases hm
      · cases hm
  · cases hm

theorem Tracked.allocate (h : Tracked w root path volumes) (c : ContainerConfig) (p : String) (vp : VolumeProfile) :
    Tracked { w.record [.mkdirAll p] with volumes := w.volumes ++ [extraVolume c p vp] } root path
      (volumes ++ [w.volumes.length]) := by
  refine (h.mkdirAll p).newVolume ?_
  intro q hq
  unfold extraVolume at hq
  dsimp only at hq
  split at hq
  · exact (Option.some.inj hq).symm
  · cases hq

theorem createExtra_ok {rp : String} {i : ℕ} {l : List VolumeProfile} (h : Tracked w root path volumes)
    (hall : ∀ v ∈ volumes, ∃ p properties, .createVolume v p properties ∈ w.log) {t : World} {volumes' : List ℕ}
    (hm : createExtra o c rp i volumes l w = (.ok volumes',t)) :
    Tracked t root path volumes' ∧ (∀ v ∈ volumes', ∃ p properties, .createVolume v p properties ∈ t.log) ∧
      volumes'.length = volumes.length + l.length := by
  induction l generalizing i volumes w with
  | nil =>
    cases hm
    exact ⟨h,hall,rfl⟩
  | cons vp rest ih =>
    unfold createExtra at hm
    split at hm
    · obtain ⟨_,_,-,hm⟩ := of_bind_ok hm
      exact (of_throw_ok hm).elim
    · obtain ⟨_,w₁,h₁,hm⟩ := of_bind_ok hm
      have hw := trying_ok (of_onError_ok h₁)
      subst hw
      obtain ⟨v,w₂,h₂,hm⟩ := of_bind_ok hm
      cases h₂
      have ht := h.allocate c (join rp vp.target) vp
      have hv : w.volumes.length ∈ volumes ++ [w.volumes.length] := by simp
      obtain ⟨properties,w₃,h₃,hm⟩ := of_bind_ok hm
      obtain ⟨ht₃,hkeep⟩ := createStorage_ok ht hv h₃
      obtain ⟨_,w₄,h₄,hm⟩ := of_bind_ok hm
      have hw := trying_ok (of_onError_ok h₄)
      subst hw
      have hres := ih (ht₃.createVolume hv _ _) ?_ hm
      · refine ⟨hres.1,hres.2.1,?_⟩
        have hlen := hres.2.2
        simp only [List.length_append, List.length_cons, List.length_nil] at hlen ⊢
        omega
      · intro u hu
        rcases List.mem_append.mp hu with hu | hu
        · obtain ⟨p,ps,hc⟩ := hall u hu
          exact ⟨p,ps,List.mem_append_left _ (hkeep _ (List.mem_append_left _ hc))⟩
        · rw [List.mem_singleton.mp hu]
          exact ⟨_,_,List.mem_append_right _ List.mem_cons_self⟩

theorem createExtra_error {rp : String} {i : ℕ} {l : List VolumeProfile} (h : Tracked w root path volumes)
    {t : World} {e : Err} (hm : createExtra o c rp i volumes l w = (.error e,t)) : Cleaned c t root := by
  induction l generalizing i volumes w with
  | nil => cases hm
  | cons vp rest ih =>
    unfold createExtra at hm
    split at hm
    · rw [bind_ok (cleanUpOnError_apply volumes w)] at hm
      have hc := h.cleanUp c
      rw [cleanUpOnError_apply] at hc
      cases hm
      exact hc
    · rcases of_bind_error hm with hm | ⟨_,w₁,h₁,hm⟩
      · exact h.tryOrCleanUp hm c
      have hw := trying_ok (of_onError_ok h₁)
      subst hw
      rcases of_bind_error hm with hm | ⟨v,w₂,h₂,hm⟩
      · cases hm
      cases h₂
      have ht := h.allocate c (join rp vp.target) vp
      have hv : w.volumes.length ∈ volumes ++ [w.volumes.length] := by simp
      rcases of_bind_error hm with hm | ⟨properties,w₃,h₃,hm⟩
      · exact createStorage_error ht hm
      obtain ⟨ht₃,-⟩ := createStorage_ok ht hv h₃
      rcases of_bind_error hm with hm | ⟨_,w₄,h₄,hm⟩
      · exact ht₃.tryOrCleanUp hm c
      have hw := trying_ok (of_onError_ok h₄)
      subst hw
      exact ih (ht₃.createVolume hv _ _) hm

theorem createExtraVolumes_ok {t : World} {extraVolumes : List ℕ}
    (h : Tracked w root path []) (hm : createExtraVolumes o c root w = (.ok extraVolumes,t)) :
    Tracked t root path extraVolumes ∧
      (∀ v ∈ extraVolumes, ∃ p properties, .createVolume v p properties ∈ t.log) ∧
      extraVolumes.length = c.profile.extraVolumes.length := by
  obtain ⟨_,_,hr,hm⟩ := of_bind_ok hm
  cases hr
  have hres := createExtra_ok h (by simp) hm
  simpa using hres

theorem createExtraVolumes_error {t : World} {e : Err} (h : Tracked w root path [])
    (hm : createExtraVolumes o c root w = (.error e,t)) : Cleaned c t root := by
  rcases of_bind_error hm with hm | ⟨_,_,hr,hm⟩
  · cases hm
  · cases hr
    exact createExtra_error h hm

end Tracking

/-! ## The root volume -/

def World.start (mtn : Store) : World := ⟨[],[],mtn⟩

theorem Cleaned.destroyRoot {c : ContainerConfig} {w : World} {root : ℕ} (h : Cleaned c w root) :
    NoLeak c (destroyVolume root w).2 := by
  have hundo : ∀ call ∈ (w.volume root).destroyCalls root, call.undoes = true :=
    fun _ => undoes_of_mem_destroyCalls
  refine ⟨?_,?_,?_⟩
  · intro v p properties hc
    rcases List.mem_append.mp hc with hc | hc
    · rcases h.made v p properties hc with rfl | hd
      · exact List.mem_append_right _ (destroyVolume_mem _ v)
      · exact List.mem_append_left _ hd
    · cases hundo _ hc
  · intro v p hp hne
    refine notMem_dirs_append ?_ (Or.inl (h.storage v p hp hne))
    intro hc
    cases hundo _ hc
  · refine notMem_containers_append ?_ (Or.inl h.container)
    intro hc
    cases hundo _ hc

theorem createRootVolume_ok {o : Outside} {c : ContainerConfig} {mtn : Store} {root : ℕ} {t : World}
    (h : createRootVolume o c (.start mtn) = (.ok root,t)) : Tracked t root (join c.root "volume") [] := by
  obtain ⟨_,w₁,h₁,h⟩ := of_bind_ok h
  have hw := trying_ok h₁
  subst hw
  obtain ⟨v,w₂,h₂,h⟩ := of_bind_ok h
  cases h₂
  obtain ⟨_,w₃,h₃,h⟩ := of_bind_ok h
  have hw := trying_ok (of_onError_ok h₃)
  subst hw
  cases h
  refine ⟨?_,?_,?_,?_,?_,?_,rfl,?_⟩
  · intro v p properties hc
    simp only [World.record, World.start, List.nil_append, List.singleton_append, List.mem_cons, reduceCtorEq,
      false_or, List.not_mem_nil, or_false] at hc
    cases hc
    exact Or.inl rfl
  · intro v p hp hne
    cases v with
    | zero => cases hp
    | succ v => cases hp
  all_goals simp [World.record, World.start]

theorem createRootVolume_error {o : Outside} {c : ContainerConfig} {mtn : Store} {t : World} {e : Err}
    (h : createRootVolume o c (.start mtn) = (.error e,t)) : NoLeak c t := by
  rcases of_bind_error h with h | ⟨_,w₁,h₁,h⟩
  · rw [trying_error h]
    refine ⟨by simp [World.start],?_,by simp [World.start, containers]⟩
    intro v p hp
    cases hp
  have hw := trying_ok h₁
  subst hw
  rcases of_bind_error h with h | ⟨v,w₂,h₂,h⟩
  · cases h
  cases h₂
  rcases of_bind_error h with h | ⟨_,w₃,h₃,h⟩
  · obtain ⟨u,hu,rfl⟩ := of_onError_error h
    rw [trying_error hu]
    refine Cleaned.destroyRoot ⟨by simp [World.record, World.start],?_,notMem_containers (by simp [World.record, World.start])⟩
    intro v p hp
    cases v with
    | zero => cases hp
    | succ v => cases hp
  · cases h

end Stout.Porto
