import Stout.Porto.SpawnCalls

/-! # What a failed spawn leaves alone

The calls of a spawn are on the directories that its request names and on its own
container. Where these directories are clear of those of another container, nothing of
the other container changes, whatever the host has answered.
-/
namespace Stout.Porto
open Prog Mtn
open Paths (join resolve)

/-! ## Calls that leave a container alone -/

/-- The call is on other directories, and on another container. -/
def Harmless (cwd : List String) (dirs : List String) (id : String) : Call → Prop
  | .mkdirAll p | .removeAll p | .createVolume _ p _ | .linkVolume p _ | .unlinkVolume p _ => Clear cwd dirs p
  | .destroy i | .setProperty i _ _ => i ≠ id
  | .destroyVolume _ | .create _ => True

structure Untouched (cwd : List String) (dirs : List String) (id : String) (h h' : Host) : Prop where
  container : h'.containers id = h.containers id
  volumes : ∀ d ∈ dirs, h'.volumes (resolve cwd d) = h.volumes (resolve cwd d)
  nodes : ∀ d ∈ dirs, ∀ q, resolve cwd d <:+ q → h'.node q = h.node q

section Host
variable {cwd : List String} {dirs : List String} {id : String} {h h' : Host}

theorem Untouched.refl (h : Host) : Untouched cwd dirs id h h := ⟨rfl,fun _ _ => rfl,fun _ _ _ _ => rfl⟩

theorem Untouched.trans {h'' : Host} (k : Untouched cwd dirs id h h') (k' : Untouched cwd dirs id h' h'') :
    Untouched cwd dirs id h h'' :=
  ⟨k'.container.trans k.container,fun d hd => (k'.volumes d hd).trans (k.volumes d hd),
    fun d hd q hq => (k'.nodes d hd q hq).trans (k.nodes d hd q hq)⟩

theorem Clear.ne {p : String} (hp : Clear cwd dirs p) {d : String} (hd : d ∈ dirs) : resolve cwd d ≠ resolve cwd p := by
  intro he
  exact (hp d hd).2 (he ▸ List.suffix_rfl)

theorem untouched_volumes {p : String} (hp : Clear cwd dirs p) (v : Option PortoVolume) :
    Untouched cwd dirs id h { h with volumes := Function.update h.volumes (resolve cwd p) v } :=
  ⟨rfl,fun _ hd => Function.update_of_ne (hp.ne hd) _ _,fun _ _ _ _ => rfl⟩

theorem untouched_containers {i : String} (hi : i ≠ id) (m : Option Map) :
    Untouched cwd dirs id h { h with containers := Function.update h.containers i m } :=
  ⟨Function.update_of_ne hi.symm _ _,fun _ _ => rfl,fun _ _ _ _ => rfl⟩

theorem call_untouched {call : Call} (hid : (h.containers id).isSome = true) (hc : Harmless cwd dirs id call)
    (hcall : h.call cwd call = some h') : Untouched cwd dirs id h h' := by
  cases call with
  | mkdirAll p =>
    cases hcall
    refine ⟨rfl,fun _ _ => rfl,?_⟩
    intro d hd q hq
    exact if_neg fun hqp => (hc d hd).2 (hq.trans hqp)
  | removeAll p =>
    cases hcall
    refine ⟨rfl,fun _ _ => rfl,?_⟩
    intro d hd q hq
    refine if_neg fun hpq => ?_
    rcases List.suffix_or_suffix_of_suffix hpq hq with hs | hs
    · exact (hc d hd).1 hs
    · exact (hc d hd).2 hs
  | createVolume v p properties =>
    simp only [Host.call] at hcall
    split at hcall
    · cases hcall
    · cases hcall
      exact untouched_volumes hc _
  | destroyVolume v =>
    cases hcall
    exact .refl h
  | linkVolume p target =>
    cases hcall
    exact untouched_volumes hc _
  | unlinkVolume p target =>
    cases hcall
    exact untouched_volumes hc _
  | create i =>
    simp only [Host.call] at hcall
    split at hcall
    · cases hcall
    · rename_i hi
      cases hcall
      apply untouched_containers
      rintro rfl
      exact hi hid
  | destroy i =>
    cases hcall
    exact untouched_containers hc _
  | setProperty i property value =>
    cases hcall
    exact untouched_containers hc _

theorem runs_untouched {log : List Call} (hr : Runs (Host.call cwd) h log h') (hid : (h.containers id).isSome = true)
    (hl : ∀ call ∈ log, Harmless cwd dirs id call) : Untouched cwd dirs id h h' := by
  induction hr with
  | refl h => exact .refl h
  | step hcall _ ih =>
    have hone := call_untouched hid (hl _ List.mem_cons_self) hcall
    refine hone.trans (ih ?_ fun call hm => hl call (List.mem_cons_of_mem _ hm))
    rw [hone.container]
    exact hid

end Host

/-! ## A spawn keeps to its own directories -/

section Keeping
variable {cwd : List String} {x : Container} {heap : List Volume}

/-- The calls so far are harmless to the container, the volumes on the heap are as they
were, and those made since have directories of their own. -/
structure Kept (cwd : List String) (x : Container) (heap : List Volume) (vs : List ℕ) (w : World) : Prop where
  calls : ∀ call ∈ w.log, Harmless cwd (x.dirs heap) x.containerID call
  old : ∀ v < heap.length, w.volume v = heap.getD v default
  len : heap.length ≤ w.volumes.length
  own : ∀ v ∈ vs, heap.length ≤ v ∧ v < w.volumes.length ∧ ∀ p ∈ (w.volume v).dirs, Clear cwd (x.dirs heap) p

theorem kept_start (mtn : Store) : Kept cwd x heap [] ⟨heap,[],mtn⟩ := ⟨nofun,fun _ _ => rfl,le_rfl,nofun⟩

variable {vs : List ℕ} {w t : World}

theorem Kept.mono {vs' : List ℕ} (h : Kept cwd x heap vs w) (hs : ∀ v ∈ vs', v ∈ vs) : Kept cwd x heap vs' w :=
  ⟨h.calls,h.old,h.len,fun v hv => h.own v (hs v hv)⟩

theorem Kept.of_same (h : Kept cwd x heap vs w) (hs : SameButMtn w t) : Kept cwd x heap vs t := by
  have hvol : ∀ v, t.volume v = w.volume v := by
    intro v
    unfold World.volume
    rw [hs.volumes]
  refine ⟨?_,?_,?_,?_⟩
  · rw [hs.log]
    exact h.calls
  · intro v hv
    rw [hvol]
    exact h.old v hv
  · rw [hs.volumes]
    exact h.len
  · intro v hv
    rw [hvol, hs.volumes]
    exact h.own v hv

theorem Kept.record (h : Kept cwd x heap vs w) {calls : List Call}
    (hc : ∀ call ∈ calls, Harmless cwd (x.dirs heap) x.containerID call) : Kept cwd x heap vs (w.record calls) :=
  ⟨fun call hm => (List.mem_append.mp hm).elim (h.calls call) (hc call),h.old,h.len,h.own⟩

theorem Kept.newVolume (h : Kept cwd x heap vs w) {volume : Volume} (hv : ∀ p ∈ volume.dirs, Clear cwd (x.dirs heap) p) :
    Kept cwd x heap (vs ++ [w.volumes.length]) { w with volumes := w.volumes ++ [volume] } where
  calls := h.calls
  old v hlt := by
    have hlen := h.len
    rw [volume_append, if_neg (by omega)]
    exact h.old v hlt
  len := by
    have hlen := h.len
    rw [List.length_append]
    omega
  own v hm := by
    rw [volume_append, List.length_append, List.length_singleton]
    rcases List.mem_append.mp hm with hm | hm
    · obtain ⟨h1,h2,h3⟩ := h.own v hm
      rw [if_neg (by omega)]
      exact ⟨h1,by omega,h3⟩
    · rw [List.mem_singleton.mp hm, if_pos rfl]
      exact ⟨h.len,by omega,hv⟩

theorem Kept.update (h : Kept cwd x heap vs w) {v : ℕ} (hv : v ∈ vs) {f : Volume → Volume}
    (hf : ∀ volume : Volume, (∀ p ∈ volume.dirs, Clear cwd (x.dirs heap) p) →
      ∀ p ∈ (f volume).dirs, Clear cwd (x.dirs heap) p) :
    Kept cwd x heap vs { w with volumes := w.volumes.modify v f } where
  calls := h.calls
  old u hlt := by
    have hge := (h.own v hv).1
    rw [volume_modify, if_neg (by omega)]
    exact h.old u hlt
  len := by
    rw [List.length_modify]
    exact h.len
  own u hu := by
    obtain ⟨h1,h2,h3⟩ := h.own u hu
    rw [volume_modify, List.length_modify]
    refine ⟨h1,h2,?_⟩
    split
    · exact hf _ h3
    · exact h3

theorem destroyCalls_harmless {volume : Volume} (hv : ∀ p ∈ volume.dirs, Clear cwd (x.dirs heap) p) (v : ℕ) :
    ∀ call ∈ volume.destroyCalls v, Harmless cwd (x.dirs heap) x.containerID call := by
  have hpath : Clear cwd (x.dirs heap) volume.path := hv _ List.mem_cons_self
  intro call hc
  unfold Volume.destroyCalls at hc
  simp only [List.mem_append, List.mem_cons, List.not_mem_nil, or_false] at hc
  rcases hc with ((rfl | hc) | rfl | rfl) | hc
  · trivial
  · split at hc
    · simp only [List.mem_cons, List.not_mem_nil, or_false] at hc
      rcases hc with rfl | rfl <;> exact hpath
    · cases hc
  · exact hpath
  · exact hpath
  · split at hc
    · rename_i storagepath hs
      split at hc
      · rename_i hne
        rw [List.mem_singleton.mp hc]
        apply hv
        simp [Volume.dirs, hs, hne]
      · cases hc
    · cases hc

theorem Kept.destroy (h : Kept cwd x heap vs w) {v : ℕ} (hv : v ∈ vs) : Kept cwd x heap vs (destroyVolume v w).2 :=
  h.record (destroyCalls_harmless (h.own v hv).2.2 v)

theorem Kept.cleanUp (h : Kept cwd x heap vs w) {volumes : List ℕ} (hv : ∀ v ∈ volumes, v ∈ vs) :
    Kept cwd x heap vs (cleanUpOnError volumes w).2 := by
  rw [cleanUpOnError_apply]
  apply h.record
  intro call hc
  obtain ⟨v,hm,hd⟩ := List.mem_flatMap.mp hc
  exact destroyCalls_harmless (h.own v (hv v hm)).2.2 v call hd

theorem Kept.tryOrCleanUp (h : Kept cwd x heap vs w) {volumes : List ℕ} (hv : ∀ v ∈ volumes, v ∈ vs) {o : Outside}
    {p : Point} {call : Call} {e : Err} (hm : onError (trying o p call) (cleanUpOnError volumes) w = (.error e,t)) :
    Kept cwd x heap vs t := by
  obtain ⟨u,hu,rfl⟩ := of_onError_error hm
  rw [trying_error hu]
  exact h.cleanUp hv

/-! ## Extra volumes -/

variable {o : Outside} {c : ContainerConfig} {h₀ h : Host} {seen : List (List String)}

def Mounted (h : Host) (seen : List (List String)) : Prop := ∀ q ∈ seen, (h.volumes q).isSome = true

theorem createStorage_kept_ok {i v : ℕ} {vp : VolumeProfile} {volumes : List ℕ} {properties : Map}
    (hk : Kept cwd x heap vs w) (hv : v ∈ vs) (hclear : ∀ p ∈ storageOf c vp, Clear cwd (x.dirs heap) p)
    (hm : createStorage o c i vp volumes v w = (.ok properties,t)) :
    Kept cwd x heap vs t ∧ ∃ l, t.log = w.log ++ l ∧ ∀ call ∈ l, ∃ p, call = .mkdirAll p := by
  unfold createStorage at hm
  dsimp only at hm
  split at hm
  · rename_i hs
    obtain ⟨_,w₁,h₁,hm⟩ := of_bind_ok hm
    have hw := trying_ok (of_onError_ok h₁)
    subst hw
    obtain ⟨_,w₂,h₂,hm⟩ := of_bind_ok hm
    cases h₂
    cases hm
    have hdir : Clear cwd (x.dirs heap) (join (lookup vp.properties "storage") c.id) := by
      apply hclear
      simp [storageOf, hs]
    have hrec : Kept cwd x heap vs (w.record [.mkdirAll (join (lookup vp.properties "storage") c.id)]) := by
      apply hk.record
      intro call hc
      rw [List.mem_singleton.mp hc]
      exact hdir
    refine ⟨hrec.update hv ?_,_,rfl,?_⟩
    · intro volume hvol p hp
      simp only [Volume.dirs, List.mem_cons] at hp
      rcases hp with rfl | hp
      · exact hvol _ List.mem_cons_self
      · split at hp
        · rw [List.mem_singleton.mp hp]
          exact hdir
        · cases hp
    · intro call hc
      exact ⟨_,List.mem_singleton.mp hc⟩
  · cases hm
    exact ⟨hk,[],by simp,by simp⟩

theorem createStorage_kept_error {i v : ℕ} {vp : VolumeProfile} {volumes : List ℕ} {e : Err}
    (hk : Kept cwd x heap vs w) (hv : ∀ v ∈ volumes, v ∈ vs) (hm : createStorage o c i vp volumes v w = (.error e,t)) :
    Kept cwd x heap vs t := by
  unfold createStorage at hm
  dsimp only at hm
  split at hm
  · rcases of_bind_error hm with hm | ⟨_,w₁,-,hm⟩
    · exact hk.tryOrCleanUp hv hm
    · rcases of_bind_error hm with hm | ⟨_,w₂,-,hm⟩
      · cases hm
      · cases hm
  · cases hm

theorem extraVolume_dirs (c : ContainerConfig) (path : String) (vp : VolumeProfile) :
    (extraVolume c path vp).dirs = [path] := by
  unfold extraVolume Volume.dirs
  dsimp only
  by_cases hs : lookup vp.properties "storage" ≠ ""
  · rw [if_pos hs]
    rfl
  · rw [if_neg hs]

theorem Kept.allocate {path : String} (vp : VolumeProfile) (hk : Kept cwd x heap vs w)
    (hclear : Clear cwd (x.dirs heap) path) :
    Kept cwd x heap (vs ++ [w.volumes.length])
      { w.record [.mkdirAll path] with volumes := w.volumes ++ [extraVolume c path vp] } := by
  have hrec : Kept cwd x heap vs (w.record [.mkdirAll path]) := by
    apply hk.record
    intro call hc
    rw [List.mem_singleton.mp hc]
    exact hclear
  apply hrec.newVolume
  intro p hp
  rw [extraVolume_dirs, List.mem_singleton] at hp
  rw [hp]
  exact hclear

theorem Kept.created {path : String} {v : ℕ} {properties : Map} {l : List Call} {w₃ : World}
    (hk : Kept cwd x heap vs w₃) (hclear : Clear cwd (x.dirs heap) path) (hrun : Runs (Host.call cwd) h₀ w.log h)
    (hmount : Mounted h seen) (hlog : w₃.log = w.log ++ l) (hl : ∀ call ∈ l, ∃ p, call = .mkdirAll p)
    (hgrow : LogGrows (w₃.record [.createVolume v path properties]) t) (hplay : ∃ h', Runs (Host.call cwd) h₀ t.log h') :
    Kept cwd x heap vs (w₃.record [.createVolume v path properties]) ∧ resolve cwd path ∉ seen ∧
      ∃ h₄, Runs (Host.call cwd) h₀ (w₃.record [.createVolume v path properties]).log h₄ ∧
        Mounted h₄ (resolve cwd path :: seen) := by
  obtain ⟨rest,hrest⟩ := hgrow
  obtain ⟨h',hplay⟩ := hplay
  rw [← hrest] at hplay
  obtain ⟨h₄,hr₄,-⟩ := hplay.split
  have hr := hr₄
  rw [World.record, hlog] at hr
  obtain ⟨h₃,hr₃,hcall⟩ := hr.snoc
  obtain ⟨h₁,hr₁,hl₃⟩ := hr₃.split
  cases hr₁.functional hrun
  obtain ⟨hvol,-⟩ := runs_mkdirAll_volumes hl₃ hl
  obtain ⟨hnone,rfl⟩ := createVolume_accepted hcall
  refine ⟨hk.record ?_,?_,_,hr₄,?_⟩
  · intro call hc
    rw [List.mem_singleton.mp hc]
    exact hclear
  · intro hs
    have hsome := hmount _ hs
    rw [← hvol, hnone] at hsome
    cases hsome
  · intro q hq
    by_cases he : q = resolve cwd path
    · rw [he]
      simp
    · rcases List.mem_cons.mp hq with rfl | hq
      · exact absurd rfl he
      · dsimp only
        rw [Function.update_of_ne he, hvol]
        exact hmount q hq

/-- What the loop has when it goes on to the next volume. -/
structure Advanced (cwd : List String) (x : Container) (heap : List Volume) (c : ContainerConfig) (h₀ : Host)
    (seen : List (List String)) (vp : VolumeProfile) (vs : List ℕ) (w : World) : Prop where
  kept : Kept cwd x heap vs w
  fresh : resolve cwd (join (rootPath c) vp.target) ∉ seen
  host : ∃ h, Runs (Host.call cwd) h₀ w.log h ∧ Mounted h (resolve cwd (join (rootPath c) vp.target) :: seen)

theorem mem_extraDirs_cons {vp : VolumeProfile} {rest : List VolumeProfile} (ht : vp.target ≠ "") {p : String} :
    p ∈ extraDirs cwd c seen (vp :: rest) ↔ p = join (rootPath c) vp.target ∨ p ∈ storageOf c vp ∨
      resolve cwd (join (rootPath c) vp.target) ∉ seen ∧
        p ∈ extraDirs cwd c (resolve cwd (join (rootPath c) vp.target) :: seen) rest := by
  rw [extraDirs, if_neg ht]
  by_cases hs : resolve cwd (join (rootPath c) vp.target) ∈ seen
  · simp [hs]
  · simp [hs]

theorem createExtra_advance {root i : ℕ} {volumes : List ℕ} {vp : VolumeProfile} {properties : Map} {w₃ : World}
    (hk : Kept cwd x heap (root :: volumes) w) (hrun : Runs (Host.call cwd) h₀ w.log h) (hmount : Mounted h seen)
    (hpath : Clear cwd (x.dirs heap) (join (rootPath c) vp.target))
    (hstorage : ∀ p ∈ storageOf c vp, Clear cwd (x.dirs heap) p)
    (h₃ : createStorage o c i vp (volumes ++ [w.volumes.length]) w.volumes.length
      { w.record [.mkdirAll (join (rootPath c) vp.target)] with
        volumes := w.volumes ++ [extraVolume c (join (rootPath c) vp.target) vp] } = (.ok properties,w₃))
    (hgrow : LogGrows (w₃.record [.createVolume w.volumes.length (join (rootPath c) vp.target) properties]) t)
    (hplay : ∃ h', Runs (Host.call cwd) h₀ t.log h') :
    Advanced cwd x heap c h₀ seen vp (root :: (volumes ++ [w.volumes.length]))
      (w₃.record [.createVolume w.volumes.length (join (rootPath c) vp.target) properties]) := by
  have hall := hk.allocate (c := c) vp hpath
  rw [List.cons_append] at hall
  obtain ⟨hk₃,l,hlog,hl⟩ := createStorage_kept_ok hall (by simp) hstorage h₃
  have hlog' : w₃.log = w.log ++ (.mkdirAll (join (rootPath c) vp.target) :: l) := by
    rw [hlog]
    simp [World.record]
  obtain ⟨hkept,hfresh,hhost⟩ := hk₃.created hpath hrun hmount hlog' (by simpa using hl) hgrow hplay
  exact ⟨hkept,hfresh,hhost⟩

theorem createExtra_kept_ok {root i : ℕ} {volumes volumes' : List ℕ} {l : List VolumeProfile}
    (hk : Kept cwd x heap (root :: volumes) w) (hrun : Runs (Host.call cwd) h₀ w.log h) (hmount : Mounted h seen)
    (hclear : ∀ p ∈ extraDirs cwd c seen l, Clear cwd (x.dirs heap) p)
    (hm : createExtra o c (rootPath c) i volumes l w = (.ok volumes',t)) (hplay : ∃ h', Runs (Host.call cwd) h₀ t.log h') :
    Kept cwd x heap (root :: volumes') t ∧ AllCreated cwd c seen l := by
  induction l generalizing i volumes w h seen with
  | nil =>
    cases hm
    exact ⟨hk,trivial⟩
  | cons vp rest ih =>
    unfold createExtra at hm
    split at hm
    · obtain ⟨_,_,-,hm⟩ := of_bind_ok hm
      exact (of_throw_ok hm).elim
    · rename_i ht
      obtain ⟨_,w₁,h₁,hm⟩ := of_bind_ok hm
      have hw := trying_ok (of_onError_ok h₁)
      subst hw
      obtain ⟨v,w₂,h₂,hm⟩ := of_bind_ok hm
      cases h₂
      obtain ⟨properties,w₃,h₃,hm⟩ := of_bind_ok hm
      obtain ⟨_,w₄,h₄,hm⟩ := of_bind_ok hm
      have hw := trying_ok (of_onError_ok h₄)
      subst hw
      have hgrow := (createExtra_grows o c (rootPath c) (i + 1) _ rest).of_eq hm
      have hpath := hclear _ ((mem_extraDirs_cons ht).mpr (.inl rfl))
      have hstorage : ∀ p ∈ storageOf c vp, Clear cwd (x.dirs heap) p :=
        fun p hp => hclear p ((mem_extraDirs_cons ht).mpr (.inr (.inl hp)))
      obtain ⟨hk₄,hfresh,h₄,hrun₄,hmount₄⟩ := createExtra_advance hk hrun hmount hpath hstorage h₃ hgrow hplay
      have hrest := ih hk₄ hrun₄ hmount₄
        (fun p hp => hclear p ((mem_extraDirs_cons ht).mpr (.inr (.inr ⟨hfresh,hp⟩)))) hm
      exact ⟨hrest.1,ht,hfresh,hrest.2⟩

theorem createExtra_kept_error {root i : ℕ} {volumes : List ℕ} {l : List VolumeProfile} {e : Err}
    (hk : Kept cwd x heap (root :: volumes) w) (hrun : Runs (Host.call cwd) h₀ w.log h) (hmount : Mounted h seen)
    (hclear : ∀ p ∈ extraDirs cwd c seen l, Clear cwd (x.dirs heap) p)
    (hm : createExtra o c (rootPath c) i volumes l w = (.error e,t)) (hplay : ∃ h', Runs (Host.call cwd) h₀ t.log h') :
    Kept cwd x heap [root] t := by
  have hroot {vs : List ℕ} {u : World} (hu : Kept cwd x heap (root :: vs) u) : Kept cwd x heap [root] u :=
    hu.mono (by simp)
  induction l generalizing i volumes w h seen with
  | nil => cases hm
  | cons vp rest ih =>
    unfold createExtra at hm
    split at hm
    · rw [bind_ok (cleanUpOnError_apply volumes w)] at hm
      have hc : Kept cwd x heap (root :: volumes) (cleanUpOnError volumes w).2 :=
        hk.cleanUp fun v hv => List.mem_cons_of_mem root hv
      rw [cleanUpOnError_apply] at hc
      cases hm
      exact hroot hc
    · rename_i ht
      have hpath := hclear _ ((mem_extraDirs_cons ht).mpr (.inl rfl))
      have hstorage : ∀ p ∈ storageOf c vp, Clear cwd (x.dirs heap) p :=
        fun p hp => hclear p ((mem_extraDirs_cons ht).mpr (.inr (.inl hp)))
      rcases of_bind_error hm with hm | ⟨_,w₁,h₁,hm⟩
      · exact hroot (hk.tryOrCleanUp (fun v hv => List.mem_cons_of_mem root hv) hm)
      have hw := trying_ok (of_onError_ok h₁)
      subst hw
      rcases of_bind_error hm with hm | ⟨v,w₂,h₂,hm⟩
      · cases hm
      cases h₂
      have hall := hk.allocate (c := c) vp hpath
      rw [List.cons_append] at hall
      rcases of_bind_error hm with hm | ⟨properties,w₃,h₃,hm⟩
      · exact hroot (createStorage_kept_error hall (fun v hv => List.mem_cons_of_mem root hv) hm)
      rcases of_bind_error hm with hm | ⟨_,w₄,h₄,hm⟩
      · have hv : w.volumes.length ∈ root :: (volumes ++ [w.volumes.length]) := by simp
        have hk₃ := (createStorage_kept_ok hall hv hstorage h₃).1
        exact hroot (hk₃.tryOrCleanUp (fun v hv => List.mem_cons_of_mem root hv) hm)
      have hw := trying_ok (of_onError_ok h₄)
      subst hw
      have hgrow := (createExtra_grows o c (rootPath c) (i + 1) _ rest).of_eq hm
      obtain ⟨hk₄,hfresh,h₄,hrun₄,hmount₄⟩ := createExtra_advance hk hrun hmount hpath hstorage h₃ hgrow hplay
      exact ih hk₄ hrun₄ hmount₄
        (fun p hp => hclear p ((mem_extraDirs_cons ht).mpr (.inr (.inr ⟨hfresh,hp⟩)))) hm

/-! ## The container -/

def Keeps (cwd : List String) (x : Container) (heap : List Volume) (vs : List ℕ) (w t : World) : Prop :=
  Kept cwd x heap vs w → Kept cwd x heap vs t

instance : IsPreorder World (Keeps cwd x heap vs) where
  refl _ h := h
  trans _ _ _ h k hw := k (h hw)

theorem always_keeps {calls : List Call} (hc : ∀ call ∈ calls, Harmless cwd (x.dirs heap) x.containerID call) :
    Moves (Keeps cwd x heap vs) (always calls) := fun _ hw => hw.record hc

theorem trying_keeps (o : Outside) (p : Point) {call : Call} (hc : Harmless cwd (x.dirs heap) x.containerID call) :
    Moves (Keeps cwd x heap vs) (trying o p call) := by
  unfold trying
  cases o.fault p with
  | none =>
    apply always_keeps
    intro call' hm
    rw [List.mem_singleton.mp hm]
    exact hc
  | some e => exact .throw _

theorem link_keeps (o : Outside) (p : Point) {v : ℕ} (hv : v ∈ vs) : Moves (Keeps cwd x heap vs) (link o p v) := by
  intro w hw
  have hpath : Clear cwd (x.dirs heap) (w.volume v).path := (hw.own v hv).2.2 _ List.mem_cons_self
  have hrest : Moves (Keeps cwd x heap vs) (do
      trying o p (.linkVolume (w.volume v).path (w.volume v).cID)
      always [.unlinkVolume (w.volume v).path "/"]
      update v fun volume => { volume with linked := true }) := by
    have htry : Moves (Keeps cwd x heap vs) (trying o p (.linkVolume (w.volume v).path (w.volume v).cID)) :=
      trying_keeps o p hpath
    refine htry.bind fun _ => (always_keeps ?_).bind fun _ => ?_
    · intro call hm
      rw [List.mem_singleton.mp hm]
      exact hpath
    · intro u hu
      exact hu.update hv fun _ hvol => hvol
  exact hrest w hw

theorem finish_keeps (o : Outside) {root : ℕ} {extraVolumes : List ℕ} (hroot : root ∈ vs)
    (hextra : ∀ v ∈ extraVolumes, v ∈ vs) {r : Map × ContainerConfig} (hid : r.2.id ≠ x.containerID) :
    Moves (Keeps cwd x heap vs) (finish o root extraVolumes r) := by
  have hd : Moves (Keeps cwd x heap vs) (always [.destroy r.2.id]) := by
    apply always_keeps
    intro call hm
    rw [List.mem_singleton.mp hm]
    exact hid
  have hset : Moves (Keeps cwd x heap vs) (setProperties o r.2 r.1) := Moves.forM fun p => trying_keeps o _ hid
  have hlink : Moves (Keeps cwd x heap vs) (linkAll o r.2 root extraVolumes) := by
    refine Moves.bind ((link_keeps o _ hroot).onError hd) fun _ => Moves.forM_mem fun p hp => ?_
    exact (link_keeps o _ (hextra _ (List.fst_mem_of_mem_zipIdx hp))).onError hd
  exact hset.bind fun _ => hlink.bind fun _ => .pure _

theorem network_keeps (c : ContainerConfig) (properties : Map) : Moves (Keeps cwd x heap vs) (network c properties) :=
  fun w hw => hw.of_same (network_sameButMtn c properties w)

theorem creating_keeps (o : Outside) {c : ContainerConfig} (properties : Map) {root : ℕ} {extraVolumes : List ℕ}
    (hroot : root ∈ vs) (hextra : ∀ v ∈ extraVolumes, v ∈ vs) (hid : c.id ≠ x.containerID) :
    Moves (Keeps cwd x heap vs)
      (onError (network c properties >>= finish o root extraVolumes) (always [.destroy c.id])) := by
  have hd : Moves (Keeps cwd x heap vs) (always [.destroy c.id]) := by
    apply always_keeps
    intro call hm
    rw [List.mem_singleton.mp hm]
    exact hid
  have hbody : Moves (Keeps cwd x heap vs) (network c properties >>= finish o root extraVolumes) := by
    intro w hw
    apply bind_ends (network_keeps c properties w hw)
    intro r t hr ht
    apply finish_keeps o hroot hextra _ t ht
    rw [(network_config hr).1]
    exact hid
  exact hbody.onError hd

/-- `CreateContainer` keeps to its own; if porto has created the container, it is not
the other one. -/
theorem createContainer_kept {root : ℕ} {extraVolumes : List ℕ} {r : Outcome Err ContainerConfig}
    (hk : Kept cwd x heap vs w) (hroot : root ∈ vs) (hextra : ∀ v ∈ extraVolumes, v ∈ vs)
    (hlive : (h₀.containers x.containerID).isSome = true) (hm : createContainer o c root extraVolumes w = (r,t))
    (hplay : ∃ h', Runs (Host.call cwd) h₀ t.log h') :
    Kept cwd x heap vs t ∧ (o.fault .create = none → c.id ≠ x.containerID) := by
  cases hf : o.fault .create with
  | some e =>
    rw [createContainer_of_fault hf] at hm
    cases hm
    exact ⟨hk,nofun⟩
  | none =>
    rw [createContainer_of_create hf] at hm
    obtain ⟨rest,hrest⟩ := (creating_grows o c _ root extraVolumes).of_eq hm
    obtain ⟨h',hplay⟩ := hplay
    rw [← hrest] at hplay
    obtain ⟨h₂,hr₂,-⟩ := hplay.split
    obtain ⟨h₁,hr₁,hcall⟩ := hr₂.snoc
    have hsame := runs_untouched hr₁ hlive hk.calls
    -- the other container is still there, so porto would have refused
    have hid : c.id ≠ x.containerID := by
      intro he
      simp only [Host.call] at hcall
      rw [he, hsame.container, if_pos hlive] at hcall
      cases hcall
    have hcreated : Kept cwd x heap vs (w.record [.create c.id]) := by
      apply hk.record
      intro call hc
      rw [List.mem_singleton.mp hc]
      trivial
    exact ⟨(creating_keeps o _ hroot hextra hid).of_eq hm hcreated,fun _ => hid⟩

theorem cleanup_keeps {pr : Container} (hv : ∀ v ∈ pr.volumes, v ∈ vs) (hid : pr.containerID ≠ x.containerID)
    (hdir : pr.cleanupEnabled = true → Clear cwd (x.dirs heap) pr.rootDir) :
    Moves (Keeps cwd x heap vs) pr.cleanup := by
  have hunuse : Moves (Keeps cwd x heap vs) pr.unuse := fun w hw => hw.of_same (unuse_sameButMtn pr w)
  refine hunuse.bind fun _ => ?_
  split
  · rename_i he
    have hone : Moves (Keeps cwd x heap vs) (destroyVolume pr.volume) := fun _ hw => hw.destroy (hv _ (by simp [Container.volumes]))
    have hall : Moves (Keeps cwd x heap vs) (pr.extraVolumes.forM destroyVolume) :=
      Moves.forM_mem fun v hm _ hw => hw.destroy (hv v (by simp [Container.volumes, hm]))
    refine hone.bind fun _ => hall.bind fun _ => always_keeps ?_
    intro call hm
    simp only [List.mem_cons, List.not_mem_nil, or_false] at hm
    rcases hm with rfl | rfl
    · exact hid
    · exact hdir he
  · exact .pure _

/-! ## The whole creation -/

variable {mtn : Store}

theorem createRootVolume_kept_ok {root : ℕ} (hclear : Clear cwd (x.dirs heap) (rootPath c))
    (hm : createRootVolume o c ⟨heap,[],mtn⟩ = (.ok root,t)) :
    Kept cwd x heap [root] t ∧ (t.volume root).path = rootPath c ∧
      ∀ h₀ h, Runs (Host.call cwd) h₀ t.log h → Mounted h [resolve cwd (rootPath c)] := by
  obtain ⟨_,w₁,h₁,hm⟩ := of_bind_ok hm
  have hw := trying_ok h₁
  subst hw
  obtain ⟨v,w₂,h₂,hm⟩ := of_bind_ok hm
  cases h₂
  obtain ⟨_,w₃,h₃,hm⟩ := of_bind_ok hm
  have hw := trying_ok (of_onError_ok h₃)
  subst hw
  cases hm
  refine ⟨?_,?_,?_⟩
  · have hmade : Kept cwd x heap [] (World.record ⟨heap,[],mtn⟩ [.mkdirAll (rootPath c)]) := by
      apply (kept_start mtn).record
      intro call hc
      rw [List.mem_singleton.mp hc]
      exact hclear
    apply (hmade.newVolume ?_).record
    · intro call hc
      rw [List.mem_singleton.mp hc]
      exact hclear
    · intro p hp
      rw [List.mem_singleton.mp hp]
      exact hclear
  · exact congrArg Volume.path ((volume_append _ _ _).trans (if_pos rfl))
  · intro h₀ h hr q hq
    obtain ⟨h₁,-,hcall⟩ := hr.snoc
    obtain ⟨-,rfl⟩ := createVolume_accepted hcall
    rw [List.mem_singleton.mp hq]
    simp [rootPath]

theorem createRootVolume_kept_error {e : Err} (hclear : Clear cwd (x.dirs heap) (rootPath c))
    (hm : createRootVolume o c ⟨heap,[],mtn⟩ = (.error e,t)) : Kept cwd x heap [] t := by
  rcases of_bind_error hm with hm | ⟨_,w₁,h₁,hm⟩
  · rw [trying_error hm]
    exact kept_start mtn
  have hw := trying_ok h₁
  subst hw
  rcases of_bind_error hm with hm | ⟨v,w₂,h₂,hm⟩
  · cases hm
  cases h₂
  rcases of_bind_error hm with hm | ⟨_,w₃,h₃,hm⟩
  · obtain ⟨u,hu,rfl⟩ := of_onError_error hm
    rw [trying_error hu]
    have hmade : Kept cwd x heap [] (World.record ⟨heap,[],mtn⟩ [.mkdirAll (rootPath c)]) := by
      apply (kept_start mtn).record
      intro call hc
      rw [List.mem_singleton.mp hc]
      exact hclear
    refine Kept.mono (Kept.destroy (hmade.newVolume ?_) (by simp [World.record])) nofun
    intro p hp
    rw [List.mem_singleton.mp hp]
    exact hclear
  · cases hm

section Clear
variable (hroot : Clear cwd (x.dirs heap) (rootPath c))
  (hextra : ∀ p ∈ extraDirs cwd c [resolve cwd (rootPath c)] c.profile.extraVolumes, Clear cwd (x.dirs heap) p)
include hroot hextra

theorem volumes_kept_ok {root : ℕ} {volumes : List ℕ} {w₁ w₂ : World}
    (h₁ : createRootVolume o c ⟨heap,[],mtn⟩ = (.ok root,w₁)) (h₂ : createExtraVolumes o c root w₁ = (.ok volumes,w₂))
    (hplay : ∃ h', Runs (Host.call cwd) h₀ w₂.log h') :
    Kept cwd x heap (root :: volumes) w₂ ∧ AllCreated cwd c [resolve cwd (rootPath c)] c.profile.extraVolumes := by
  obtain ⟨hk,hpath,hmount⟩ := createRootVolume_kept_ok hroot h₁
  rw [createExtraVolumes, read_bind, hpath] at h₂
  obtain ⟨h,hr⟩ := ((createExtra_grows o c _ 0 [] _).of_eq h₂).played hplay
  exact createExtra_kept_ok hk hr (hmount h₀ h hr) hextra h₂ hplay

theorem newContainer_kept_error {e : Err} (hlive : (h₀.containers x.containerID).isSome = true)
    (hm : newContainer o c ⟨heap,[],mtn⟩ = (.error e,t)) (hplay : ∃ h', Runs (Host.call cwd) h₀ t.log h') :
    Kept cwd x heap [] t := by
  rcases newContainer_error hm with h₁ | ⟨root,w,h₁,⟨u,hu,rfl⟩ | ⟨volumes,w',u,h₂,hu,rfl⟩⟩
  · exact createRootVolume_kept_error hroot h₁
  · have hplay' := LogGrows.played (destroyVolume_grows root u) hplay
    obtain ⟨hk,hpath,hmount⟩ := createRootVolume_kept_ok hroot h₁
    rw [createExtraVolumes, read_bind, hpath] at hu
    obtain ⟨h,hr⟩ := ((createExtra_grows o c _ 0 [] _).of_eq hu).played hplay'
    have hku := createExtra_kept_error hk hr (hmount h₀ h hr) hextra hu hplay'
    exact (hku.destroy List.mem_cons_self).mono nofun
  · have hplay' := LogGrows.played (destroyVolume_grows root u) hplay
    have hk := (volumes_kept_ok hroot hextra h₁ h₂
      (((createContainer_grows o c root volumes).of_eq hu).played hplay')).1
    have hku := (createContainer_kept hk List.mem_cons_self (fun v hv => List.mem_cons_of_mem root hv) hlive hu hplay').1
    exact (hku.destroy List.mem_cons_self).mono nofun

theorem newContainer_kept_ok {pr : Container} (hlive : (h₀.containers x.containerID).isSome = true)
    (hm : newContainer o c ⟨heap,[],mtn⟩ = (.ok pr,t)) (hplay : ∃ h', Runs (Host.call cwd) h₀ t.log h') :
    Kept cwd x heap pr.volumes t ∧ pr.containerID = c.id ∧ c.id ≠ x.containerID ∧ pr.rootDir = c.root ∧
      pr.cleanupEnabled = c.cleanupEnabled ∧ AllCreated cwd c [resolve cwd (rootPath c)] c.profile.extraVolumes ∧
      (c.asksMtn → ∃ a st, useAlloc c.mtnCfg c.netid c.boxName mtn = (.ok a,st)) := by
  obtain ⟨w₁,w₂,c',h₁,h₂,h₃,hid,hdir,hclean,-⟩ := newContainer_ok hm
  obtain ⟨hf,hid',hdir',hclean',-,hmtn⟩ := createContainer_config h₃
  have hplay₂ := ((createContainer_grows o c _ _).of_eq h₃).played hplay
  obtain ⟨hk,hall⟩ := volumes_kept_ok hroot hextra h₁ h₂ hplay₂
  obtain ⟨hkt,hne⟩ := createContainer_kept hk List.mem_cons_self (fun v hv => List.mem_cons_of_mem _ hv) hlive h₃ hplay
  have hsame : w₂.mtn = mtn :=
    ((createExtraVolumes_sameMtn _).of_eq h₂).trans ((createRootVolume_sameMtn o c).of_eq h₁)
  rw [hsame] at hmtn
  exact ⟨hkt,hid.trans hid',hne hf,hdir.trans hdir',hclean.trans hclean',hall,hmtn⟩

end Clear

end Keeping

section Frame
variable {cwd : List String} {x : Container} {heap : List Volume} {mtn : Store}
  {containers : String → Option Container} {h h' : Host} {t : BoxState}

theorem Kept.intact (hx : ∀ v ∈ x.volumes, v < heap.length) {vs : List ℕ} (hk : Kept cwd x heap vs t.world)
    (hlive : Live cwd h ⟨⟨heap,[],mtn⟩,containers⟩ x) (hentry : t.containers x.containerID = containers x.containerID)
    (hplay : Runs (Host.call cwd) h t.world.log h') : Intact cwd x ⟨⟨heap,[],mtn⟩,containers⟩ h t h' := by
  have hsame := runs_untouched hplay hlive.created hk.calls
  refine ⟨hentry,hsame.container,fun v hv => hk.old v (hx v hv),?_,hsame.nodes⟩
  intro v hv
  apply hsame.volumes
  exact List.mem_flatMap.mpr ⟨v,hv,List.mem_cons_self⟩

theorem useAlloc_bucket {cfg : MtnCfg} {netId box : String} {a : Allocation} {s st : Store}
    (hu : useAlloc cfg netId box s = (.ok a,st)) : s.db[netId]? ≠ none := by
  intro hn
  have hb := (useAlloc_ok hu).1
  rw [Std.ExtTreeMap.contains_eq_isSome_getElem?, hn] at hb
  cases hb

/-- A failed spawn does not touch a live container whose directories it spares. -/
theorem spawn_intact {o : SpawnOutside} {b : BoxConfig} {config : SpawnConfig} {e : SpawnError}
    (hx : ∀ v ∈ x.volumes, v < heap.length)
    (hs : ∀ profile, config.opts = .ok profile → b.getManifestLayers config.name ≠ "" →
      Spares cwd (b.containerConfig config profile) (x.dirs heap) x.containerID)
    (hdb : mtn.db[""]? = none) (hlive : Live cwd h ⟨⟨heap,[],mtn⟩,containers⟩ x)
    (hm : spawn o b config ⟨⟨heap,[],mtn⟩,containers⟩ = (.error e,t)) (hplay : Runs (Host.call cwd) h t.world.log h') :
    Intact cwd x ⟨⟨heap,[],mtn⟩,containers⟩ h t h' := by
  rcases spawn_error hm with rfl | ⟨profile,hp,hl,⟨err,w,hw,rfl⟩ | ⟨pr,w,hw,rfl⟩⟩
  · exact (kept_start mtn).intact hx hlive rfl hplay
  · have hsp := hs profile hp hl
    exact (newContainer_kept_error hsp.root hsp.extra hlive.created hw ⟨h',hplay⟩).intact hx hlive rfl hplay
  · have hsp := hs profile hp hl
    obtain ⟨hk,hid,hne,hdir,hclean,hall,hmtn⟩ :=
      newContainer_kept_ok hsp.root hsp.extra hlive.created hw (LogGrows.played (cleanup_grows pr w) ⟨h',hplay⟩)
    have hnet : (b.containerConfig config profile).asksMtn → (b.containerConfig config profile).netid ≠ "" := by
      intro hask he
      obtain ⟨a,st,hu⟩ := hmtn hask
      rw [he] at hu
      exact useAlloc_bucket hu hdb
    have hkc : Kept cwd x heap pr.volumes (pr.cleanup w).2 := by
      apply cleanup_keeps (fun v hv => hv) (hid ▸ hne) _ w hk
      intro hc
      rw [hdir]
      exact hsp.rootDir hall hne hnet (hclean ▸ hc)
    refine hkc.intact hx hlive ?_ hplay
    exact Function.update_of_ne (hid ▸ hne).symm _ _

end Frame

end Stout.Porto
