import Stout.Isolate.MtnReliable
import Stout.Porto.SpawnFrame
import Stout.Porto.ExtraVolumes

/-! # When a failed spawn damages a live container

A spawn that names a directory of another container, or one above or below, can fail so
that the directory is removed: the clean-up after a failed creation does not ask who has
made what it removes.
-/
namespace Stout.Porto
open Prog Mtn
open Paths (join join_ne_empty resolve)

/-! ## Calls that remove -/

/-- A call that is never refused and makes no directory. -/
def Call.clears (call : Call) : Bool := call.undoes || call.late

section Host
variable {cwd : List String} {h h₀ : Host}

theorem runs_clears (cwd : List String) {l : List Call} (hl : ∀ call ∈ l, call.clears = true) (h : Host) :
    ∃ h', Runs (Host.call cwd) h l h' ∧ (∀ z, h.node z = none → h'.node z = none) ∧
      ∀ p, .removeAll p ∈ l → ∀ z, resolve cwd p <:+ z → h'.node z = none := by
  induction l generalizing h with
  | nil => exact ⟨h,.refl h,fun _ hz => hz,nofun⟩
  | cons call l ih =>
    have hone : ∃ h₁, h.call cwd call = some h₁ ∧ (∀ z, h.node z = none → h₁.node z = none) ∧
        ∀ p, call = .removeAll p → ∀ z, resolve cwd p <:+ z → h₁.node z = none := by
      have hc := hl call List.mem_cons_self
      cases call with
      | mkdirAll p => cases hc
      | createVolume v p properties => cases hc
      | create i => cases hc
      | removeAll p =>
        refine ⟨_,rfl,?_,?_⟩
        · intro z hz
          dsimp only
          split
          · rfl
          · exact hz
        · rintro p' he z hz
          cases he
          exact if_pos hz
      | destroyVolume v => exact ⟨_,rfl,fun _ hz => hz,nofun⟩
      | linkVolume p target => exact ⟨_,rfl,fun _ hz => hz,nofun⟩
      | unlinkVolume p target => exact ⟨_,rfl,fun _ hz => hz,nofun⟩
      | destroy i => exact ⟨_,rfl,fun _ hz => hz,nofun⟩
      | setProperty i property value => exact ⟨_,rfl,fun _ hz => hz,nofun⟩
    obtain ⟨h₁,hcall,hkeep,hgone⟩ := hone
    obtain ⟨h',hr,hkeep',hgone'⟩ := ih (fun call hm => hl call (List.mem_cons_of_mem _ hm)) h₁
    refine ⟨h',.step hcall hr,fun z hz => hkeep' z (hkeep z hz),?_⟩
    intro p hp z hz
    rcases List.mem_cons.mp hp with he | hp
    · exact hkeep' z (hgone p he.symm z hz)
    · exact hgone' p hp z hz

/-- The calls can be made on the host, and the last of them remove the directory. -/
def Removes (cwd : List String) (h₀ : Host) (log : List Call) (p : String) : Prop :=
  ∃ l₁ l₂ h₁, log = l₁ ++ l₂ ∧ Runs (Host.call cwd) h₀ l₁ h₁ ∧ (∀ call ∈ l₂, call.clears = true) ∧ .removeAll p ∈ l₂

theorem Removes.append {log l : List Call} {p : String} (hr : Removes cwd h₀ log p) (hl : ∀ call ∈ l, call.clears = true) :
    Removes cwd h₀ (log ++ l) p := by
  obtain ⟨l₁,l₂,h₁,rfl,hrun,hc,hp⟩ := hr
  refine ⟨l₁,l₂ ++ l,h₁,List.append_assoc ..,hrun,?_,List.mem_append_left _ hp⟩
  intro call hm
  exact (List.mem_append.mp hm).elim (hc call) (hl call)

theorem Removes.runs {log : List Call} {p : String} (hr : Removes cwd h₀ log p) :
    ∃ h', Runs (Host.call cwd) h₀ log h' ∧ ∀ z, resolve cwd p <:+ z → h'.node z = none := by
  obtain ⟨l₁,l₂,h₁,rfl,hrun,hc,hp⟩ := hr
  obtain ⟨h',hrun',-,hgone⟩ := runs_clears cwd hc h₁
  exact ⟨h',hrun.append hrun',hgone p hp⟩

theorem destroyCalls_clears (volume : Volume) (v : ℕ) : ∀ call ∈ volume.destroyCalls v, call.clears = true := by
  intro call hc
  rw [Call.clears, undoes_of_mem_destroyCalls hc]
  rfl

theorem removeAll_mem_of_dirs {volume : Volume} {v : ℕ} {p : String} (hp : p ∈ volume.dirs) :
    .removeAll p ∈ volume.destroyCalls v := by
  unfold Volume.dirs at hp
  rcases List.mem_cons.mp hp with rfl | hp
  · simp [Volume.destroyCalls]
  · split at hp
    · rename_i storagepath hs
      split at hp
      · rename_i hne
        rw [List.mem_singleton.mp hp]
        exact removeAll_mem hs hne
      · cases hp
    · cases hp

theorem runs_mkdirAll {l : List Call} (hl : ∀ call ∈ l, ∃ p, call = .mkdirAll p) (h : Host) :
    ∃ h', Runs (Host.call cwd) h l h' := by
  induction l generalizing h with
  | nil => exact ⟨h,.refl h⟩
  | cons call l ih =>
    obtain ⟨p,rfl⟩ := hl call List.mem_cons_self
    obtain ⟨h',hr⟩ := ih (fun call hm => hl call (List.mem_cons_of_mem _ hm)) _
    exact ⟨h',.step rfl hr⟩

/-- No volume but at the places seen and in the directories. -/
def Free (cwd : List String) (dirs : List String) (seen : List (List String)) (h : Host) : Prop :=
  ∀ q, q ∉ seen → q ∉ dirs.map (resolve cwd) → h.volumes q = none

theorem Clear.notMem {dirs : List String} {p : String} (hp : Clear cwd dirs p) : resolve cwd p ∉ dirs.map (resolve cwd) := by
  intro hm
  obtain ⟨d,hd,he⟩ := List.mem_map.mp hm
  exact hp.ne hd he

theorem Free.createVolume {dirs : List String} {seen : List (List String)} {log l : List Call} {path : String}
    (hfree : Free cwd dirs seen h) (hrun : Runs (Host.call cwd) h₀ log h) (hl : ∀ call ∈ l, ∃ p, call = .mkdirAll p)
    (hclear : Clear cwd dirs path) (hseen : resolve cwd path ∉ seen) (v : ℕ) (properties : Map) :
    ∃ h', Runs (Host.call cwd) h₀ (log ++ l ++ [.createVolume v path properties]) h' ∧
      Free cwd dirs (resolve cwd path :: seen) h' ∧ h'.containers = h.containers := by
  obtain ⟨h₁,hr₁⟩ := runs_mkdirAll hl h
  obtain ⟨hvol,hcont⟩ := runs_mkdirAll_volumes hr₁ hl
  have hnone : h₁.volumes (resolve cwd path) = none := by
    rw [hvol]
    exact hfree _ hseen hclear.notMem
  have hcall : h₁.call cwd (.createVolume v path properties) =
      some { h₁ with volumes := Function.update h₁.volumes (resolve cwd path) (some ⟨properties,["/"]⟩) } := by
    simp [Host.call, hnone]
  refine ⟨_,(hrun.append hr₁).append (.single hcall),?_,hcont⟩
  intro q hq hd
  have hne : q ≠ resolve cwd path := fun he => hq (he ▸ List.mem_cons_self)
  dsimp only
  rw [Function.update_of_ne hne, hvol]
  exact hfree q (fun hs => hq (List.mem_cons_of_mem _ hs)) hd

end Host

/-! ## Extra volumes -/

section Extra
variable {o : Outside} {c : ContainerConfig} {i : ℕ} {vp : VolumeProfile}

theorem builtVolume_dirs (c : ContainerConfig) (root : String) (vp : VolumeProfile) :
    (builtVolume c root vp).dirs = join root vp.target :: storageOf c vp := by
  by_cases hs : vp.storage = ""
  · have hs' : lookup vp.properties "storage" = "" := hs
    simp [builtVolume, Volume.dirs, storageOf, hs, hs']
  · have hstorage : lookup vp.properties "storage" = vp.storage := rfl
    simp [builtVolume, Volume.dirs, storageOf, hs, hstorage, join_ne_empty hs]

theorem grown_volume (w : World) (x : Volume) (calls : List Call) :
    (w.grown x calls).volume w.volumes.length = x := by
  simp [World.volume, World.grown]

theorem mem_preparedCalls (c : ContainerConfig) (root : String) (vp : VolumeProfile) :
    ∀ call ∈ Call.mkdirAll (join root vp.target) :: storageCalls c vp, ∃ p, call = .mkdirAll p := by
  unfold storageCalls
  split <;> simp

theorem failing_self (p : Point) : (failing p).fault p = some "failed" := if_pos rfl

theorem failing_other {p q : Point} (h : q ≠ p) : (failing p).fault q = none := if_neg h

theorem createExtra_fails {cwd : List String} {h₀ h : Host} {w : World} (ht : vp.target ≠ "")
    (hrun : Runs (Host.call cwd) h₀ w.log h) (volumes : List ℕ) (rest : List VolumeProfile) {p : String}
    (hp : p ∈ join (rootPath c) vp.target :: storageOf c vp) :
    ∃ e u, createExtra (failing (.createExtra i)) c (rootPath c) i volumes (vp :: rest) w = (.error e,u) ∧
      Removes cwd h₀ u.log p := by
  have hm : (failing (.createExtra i)).fault (.mkdirTarget i) = none := failing_other nofun
  have hs : (failing (.createExtra i)).fault (.mkdirStorage i) = none := failing_other nofun
  rw [createExtra_prepared c (rootPath c) ht hm (.inr hs), bind_error (onError_trying_fails (failing_self _) _ _ _),
    cleanUpOnError_apply]
  refine ⟨_,_,rfl,?_⟩
  obtain ⟨h₁,hr₁⟩ := runs_mkdirAll (mem_preparedCalls c (rootPath c) vp) h
  refine ⟨_,_,h₁,rfl,hrun.append hr₁,?_,?_⟩
  · intro call hc
    obtain ⟨v,-,hv⟩ := List.mem_flatMap.mp hc
    exact destroyCalls_clears _ v call hv
  · refine List.mem_flatMap.mpr ⟨w.volumes.length,by simp,removeAll_mem_of_dirs ?_⟩
    rw [grown_volume, builtVolume_dirs]
    exact hp

theorem createExtra_turn {cwd : List String} {dirs : List String} {seen : List (List String)} {h₀ h : Host} {w : World}
    (ht : vp.target ≠ "") (hf₁ : o.fault (.mkdirTarget i) = none) (hf₂ : o.fault (.mkdirStorage i) = none)
    (hf₃ : o.fault (.createExtra i) = none) (hrun : Runs (Host.call cwd) h₀ w.log h) (hfree : Free cwd dirs seen h)
    (hclear : Clear cwd dirs (join (rootPath c) vp.target)) (hseen : resolve cwd (join (rootPath c) vp.target) ∉ seen)
    (volumes : List ℕ) (rest : List VolumeProfile) :
    ∃ volumes' w' h', createExtra o c (rootPath c) i volumes (vp :: rest) w =
        createExtra o c (rootPath c) (i + 1) volumes' rest w' ∧ Runs (Host.call cwd) h₀ w'.log h' ∧
      Free cwd dirs (resolve cwd (join (rootPath c) vp.target) :: seen) h' ∧ h'.containers = h.containers := by
  obtain ⟨h',hr',hfree',hcont⟩ :=
    hfree.createVolume hrun (mem_preparedCalls c (rootPath c) vp) hclear hseen w.volumes.length (rewritten c vp)
  have hturn := createExtra_prepared c (rootPath c) ht hf₁ (.inr hf₂) volumes rest w
  rw [bind_ok (onError_trying_quiet hf₃ _ _ _)] at hturn
  exact ⟨_,_,h',hturn,hr',hfree',hcont⟩

/-- A directory that is not clear is removed again when its volume cannot be created. -/
theorem createExtra_removes {cwd : List String} {dirs : List String} {seen : List (List String)} {l : List VolumeProfile}
    (hc : ∃ p ∈ extraDirs cwd c seen l, ¬Clear cwd dirs p) :
    ∃ k ≥ i, ∃ p, ¬Clear cwd dirs p ∧ ∀ (volumes : List ℕ) (w : World) (h₀ h : Host),
      Runs (Host.call cwd) h₀ w.log h → Free cwd dirs seen h →
        ∃ e u, createExtra (failing (.createExtra k)) c (rootPath c) i volumes l w = (.error e,u) ∧
          Removes cwd h₀ u.log p := by
  induction l generalizing i seen with
  | nil =>
    obtain ⟨p,hp,-⟩ := hc
    cases hp
  | cons vp rest ih =>
    obtain ⟨p,hp,hnot⟩ := hc
    have ht : vp.target ≠ "" := by
      intro he
      rw [extraDirs, if_pos he] at hp
      cases hp
    by_cases hnow : ∃ p ∈ join (rootPath c) vp.target :: storageOf c vp, ¬Clear cwd dirs p
    · obtain ⟨p',hp',hnot'⟩ := hnow
      refine ⟨i,le_rfl,p',hnot',?_⟩
      intro volumes w h₀ h hrun _
      exact createExtra_fails ht hrun volumes rest hp'
    · have hok : ∀ p ∈ join (rootPath c) vp.target :: storageOf c vp, Clear cwd dirs p := by
        intro p hp
        by_contra hn
        exact hnow ⟨p,hp,hn⟩
      have hclear := hok _ List.mem_cons_self
      obtain ⟨hseen,hrest⟩ : resolve cwd (join (rootPath c) vp.target) ∉ seen ∧
          p ∈ extraDirs cwd c (resolve cwd (join (rootPath c) vp.target) :: seen) rest := by
        rcases (mem_extraDirs_cons ht).mp hp with rfl | hp | hp
        · exact absurd hclear hnot
        · exact absurd (hok p (List.mem_cons_of_mem _ hp)) hnot
        · exact hp
      obtain ⟨k,hk,p',hnot',hall⟩ := ih (i := i + 1) ⟨p,hrest,hnot⟩
      refine ⟨k,by omega,p',hnot',?_⟩
      intro volumes w h₀ h hrun hfree
      have hne : Point.createExtra i ≠ .createExtra k := by
        intro he
        have := Point.createExtra.inj he
        omega
      obtain ⟨volumes',w',h',heq,hrun',hfree',-⟩ := createExtra_turn (o := failing (.createExtra k)) ht
        (failing_other (by simp)) (failing_other (by simp)) (failing_other hne) hrun hfree hclear hseen volumes rest
      rw [heq]
      exact hall volumes' w' h₀ h' hrun' hfree'

theorem createExtra_all {cwd : List String} {dirs : List String} {seen : List (List String)} {l : List VolumeProfile}
    (ho : ∀ p, o.fault p = none) (hall : AllCreated cwd c seen l)
    (hclear : ∀ p ∈ extraDirs cwd c seen l, Clear cwd dirs p) (volumes : List ℕ) {w : World} {h₀ h : Host}
    (hrun : Runs (Host.call cwd) h₀ w.log h) (hfree : Free cwd dirs seen h) :
    ∃ volumes' u h', createExtra o c (rootPath c) i volumes l w = (.ok volumes',u) ∧ Runs (Host.call cwd) h₀ u.log h' ∧
      h'.containers = h.containers := by
  induction l generalizing i volumes w h seen with
  | nil => exact ⟨volumes,w,h,rfl,hrun,rfl⟩
  | cons vp rest ih =>
    obtain ⟨ht,hseen,hrest⟩ := hall
    have hpath := hclear _ ((mem_extraDirs_cons ht).mpr (.inl rfl))
    obtain ⟨volumes₁,w₁,h₁,heq,hrun₁,hfree₁,hcont₁⟩ :=
      createExtra_turn (i := i) ht (ho _) (ho _) (ho _) hrun hfree hpath hseen volumes rest
    obtain ⟨volumes',u,h',hu,hrun',hcont'⟩ := ih (i := i + 1) hrest
      (fun p hp => hclear p ((mem_extraDirs_cons ht).mpr (.inr (.inr ⟨hseen,hp⟩)))) volumes₁ hrun₁ hfree₁
    exact ⟨volumes',u,h',heq.trans hu,hrun',hcont'.trans hcont₁⟩

end Extra

/-! ## The root volume and the container -/

section Creation
variable {o : Outside} {c : ContainerConfig} {cwd : List String} {dirs : List String} {heap : List Volume} {mtn : Store}
  {h₀ : Host}

def rootProperties (c : ContainerConfig) : Map :=
  c.profile.volume.foldl (fun m limit value => m.insert limit value)
    (((∅ : Map).insert "backend" c.volumeBackend).insert "layers" c.layer |>.insert "private" c.volumeLabel)

def rootVolume (c : ContainerConfig) : Volume := ⟨c.id,rootPath c,false,rootProperties c,none⟩

theorem createRootVolume_prepared (hf : o.fault .mkdirRoot = none) (c : ContainerConfig) (w : World) :
    createRootVolume o c w =
      (onError (trying o .createRoot (.createVolume w.volumes.length (rootPath c) (rootProperties c)))
        (destroyVolume w.volumes.length) >>= fun _ => pure w.volumes.length)
        { w.record [.mkdirAll (rootPath c)] with volumes := w.volumes ++ [rootVolume c] } := by
  rw [createRootVolume, bind_ok (trying_quiet hf _ w)]
  rfl

theorem newContainer_createRoot_fails (hf₁ : o.fault .mkdirRoot = none) {err : String}
    (hf₂ : o.fault .createRoot = some err) (c : ContainerConfig) (cwd : List String) (heap : List Volume) (mtn : Store)
    (h₀ : Host) : ∃ t, newContainer o c ⟨heap,[],mtn⟩ = (.error (.text err),t) ∧ Removes cwd h₀ t.log (rootPath c) := by
  have heq := createRootVolume_prepared hf₁ c ⟨heap,[],mtn⟩
  rw [bind_error (onError_trying_fails hf₂ _ _ _)] at heq
  refine ⟨_,bind_error heq _,?_⟩
  refine ⟨[.mkdirAll (rootPath c)],_,_,rfl,.single rfl,destroyCalls_clears _ _,removeAll_mem_of_dirs ?_⟩
  simp [World.volume, rootVolume, Volume.dirs]

theorem createRootVolume_quiet (hf₁ : o.fault .mkdirRoot = none) (hf₂ : o.fault .createRoot = none)
    (hclear : Clear cwd dirs (rootPath c)) (hfree : Free cwd dirs [] h₀) (heap : List Volume) (mtn : Store) :
    ∃ w h, createRootVolume o c ⟨heap,[],mtn⟩ = (.ok heap.length,w) ∧ (w.volume heap.length).path = rootPath c ∧
      Runs (Host.call cwd) h₀ w.log h ∧ Free cwd dirs [resolve cwd (rootPath c)] h ∧ h.containers = h₀.containers := by
  have heq := createRootVolume_prepared hf₁ c ⟨heap,[],mtn⟩
  rw [bind_ok (onError_trying_quiet hf₂ _ _ _)] at heq
  obtain ⟨h,hr,hfree',hcont⟩ := hfree.createVolume (l := [.mkdirAll (rootPath c)]) (.refl h₀) (by simp) hclear
    List.not_mem_nil heap.length (rootProperties c)
  refine ⟨_,h,heq,?_,hr,hfree',hcont⟩
  exact congrArg Volume.path ((volume_append _ _ _).trans (if_pos rfl))

theorem newContainer_createExtra_fails (hclear : Clear cwd dirs (rootPath c))
    (hc : ∃ p ∈ extraDirs cwd c [resolve cwd (rootPath c)] c.profile.extraVolumes, ¬Clear cwd dirs p)
    (heap : List Volume) (mtn : Store) :
    ∃ o p, ¬Clear cwd dirs p ∧ ∀ h₀, Free cwd dirs [] h₀ →
      ∃ e t, newContainer o c ⟨heap,[],mtn⟩ = (.error e,t) ∧ Removes cwd h₀ t.log p := by
  obtain ⟨k,-,p,hnot,hall⟩ := createExtra_removes (i := 0) hc
  refine ⟨failing (.createExtra k),p,hnot,?_⟩
  intro h₀ hfree
  obtain ⟨w,h,hroot,hpath,hrun,hfree',-⟩ :=
    createRootVolume_quiet (o := failing (.createExtra k)) (failing_other nofun) (failing_other nofun) hclear hfree heap mtn
  obtain ⟨e,u,hu,hrem⟩ := hall [] w h₀ h hrun hfree'
  have hextra : createExtraVolumes (failing (.createExtra k)) c heap.length w = (.error e,u) := by
    rw [createExtraVolumes, read_bind, hpath]
    exact hu
  refine ⟨e,(destroyVolume heap.length u).2,?_,hrem.append (destroyCalls_clears _ _)⟩
  rw [newContainer, bind_ok hroot]
  exact bind_error (show onError _ _ w = _ by rw [onError, hextra]) _

def oneFree (netId : String) : Store := ⟨putRecord ∅ netId "a1" ⟨"eth0","host","::1","a1",netId,"",false⟩,silent⟩

theorem useAlloc_oneFree (cfg : MtnCfg) (netId box : String) :
    useAlloc cfg netId box (oneFree netId) = (.ok ⟨"eth0","host","::1","a1",netId,box,true⟩,
      { oneFree netId with db := putRecord (oneFree netId).db netId "a1" ⟨"eth0","host","::1","a1",netId,box,true⟩ }) := by
  have hbucket : (oneFree netId).db[netId]? =
      some ((∅ : Bucket).insert "a1" ⟨"eth0","host","::1","a1",netId,"",false⟩) := by
    simp [oneFree, putRecord, Buckets.put]
  have hlist : ((∅ : Bucket).insert "a1" ⟨"eth0","host","::1","a1",netId,"",false⟩).toList =
      [("a1",⟨"eth0","host","::1","a1",netId,"",false⟩)] := rfl
  have hkey : ValidKey "a1" := ⟨by decide,by decide +kernel⟩
  refine transaction_reliable rfl ?_ rfl
  rw [Codec.getDbAlloc, read_bind, hbucket]
  dsimp only
  rw [hlist, bind_ok (takeFree_reliable_free rfl rfl rfl hkey)]
  rfl

theorem exists_store (hnet : c.asksMtn → c.netid ≠ "") :
    ∃ mtn : Store, mtn.db[""]? = none ∧
      (c.asksMtn → ∃ a st, useAlloc c.mtnCfg c.netid c.boxName mtn = (.ok a,st)) := by
  by_cases hask : c.asksMtn
  · refine ⟨oneFree c.netid,?_,fun _ => ⟨_,_,useAlloc_oneFree ..⟩⟩
    have hne := hnet hask
    simp [oneFree, putRecord, Buckets.put, hne]
  · exact ⟨⟨∅,silent⟩,by simp,fun h => absurd h hask⟩

theorem createContainer_quiet (ho : ∀ p, o.fault p = none) (root : ℕ) (extraVolumes : List ℕ) {w : World} {h : Host}
    (hmtn : c.asksMtn → ∃ a st, useAlloc c.mtnCfg c.netid c.boxName w.mtn = (.ok a,st))
    (hrun : Runs (Host.call cwd) h₀ w.log h) (hid : h.containers c.id = none) :
    ∃ c' t h', createContainer o c root extraVolumes w = (.ok c',t) ∧ Runs (Host.call cwd) h₀ t.log h' := by
  have hcall : h.call cwd (.create c.id) = some { h with containers := Function.update h.containers c.id (some ∅) } := by
    simp [Host.call, hid]
  have hcreated : Runs (Host.call cwd) h₀ (w.record [.create c.id]).log _ := hrun.append (.single hcall)
  obtain ⟨r,w₁,hnet⟩ : ∃ r w₁, network c (c.properties o (w.volume root).path) (w.record [.create c.id]) = (.ok r,w₁) := by
    by_cases hask : c.asksMtn
    · obtain ⟨a,st,hu⟩ := hmtn hask
      rw [network_of_asksMtn hask, record_mtn, hu]
      exact ⟨_,_,rfl⟩
    · rw [network_of_not_asksMtn hask]
      exact ⟨_,_,rfl⟩
  have hlate : ¬LateFails o extraVolumes.length r.1 := by
    simp [LateFails, ho]
  obtain ⟨c',t,hfin⟩ := (finish_failsIff o root extraVolumes r).exists_ok hlate w₁
  have hsame := network_sameButMtn c (c.properties o (w.volume root).path) (w.record [.create c.id])
  rw [hnet] at hsame
  obtain ⟨l,hl,hcalls⟩ := ((finish_adds o root extraVolumes r).of_eq hfin).log
  obtain ⟨h',hr',-⟩ := runs_clears cwd (l := l) (fun call hc => by simp [Call.clears, hcalls call hc]) _
  refine ⟨c',t,h',?_,?_⟩
  · rw [createContainer_of_create (ho _), onError, bind_ok hnet, hfin]
  · rw [hl, hsame.log]
    exact hcreated.append hr'

theorem newContainer_quiet (heap : List Volume) (ho : ∀ p, o.fault p = none) (hroot : Clear cwd dirs (rootPath c))
    (hextra : ∀ p ∈ extraDirs cwd c [resolve cwd (rootPath c)] c.profile.extraVolumes, Clear cwd dirs p)
    (hall : AllCreated cwd c [resolve cwd (rootPath c)] c.profile.extraVolumes)
    (hmtn : c.asksMtn → ∃ a st, useAlloc c.mtnCfg c.netid c.boxName mtn = (.ok a,st))
    (hfree : Free cwd dirs [] h₀) (hid : h₀.containers c.id = none) :
    ∃ pr t h, newContainer o c ⟨heap,[],mtn⟩ = (.ok pr,t) ∧ Runs (Host.call cwd) h₀ t.log h := by
  obtain ⟨w₁,h₁,hr,hpath,hrun₁,hfree₁,hcont₁⟩ := createRootVolume_quiet (ho _) (ho _) hroot hfree heap mtn
  obtain ⟨volumes,w₂,h₂,hex,hrun₂,hcont₂⟩ := createExtra_all (i := 0) ho hall hextra [] hrun₁ hfree₁
  have hex' : createExtraVolumes o c heap.length w₁ = (.ok volumes,w₂) := by
    rw [createExtraVolumes, read_bind, hpath]
    exact hex
  have hsame : w₂.mtn = mtn :=
    ((createExtraVolumes_sameMtn _).of_eq hex').trans ((createRootVolume_sameMtn o c).of_eq hr)
  rw [← hsame] at hmtn
  rw [← hcont₁, ← hcont₂] at hid
  obtain ⟨c',t,h',hc,hrun'⟩ := createContainer_quiet ho heap.length volumes hmtn hrun₂ hid
  rw [newContainer, bind_ok hr, bind_ok (show onError _ _ w₁ = _ by rw [onError, hex']),
    bind_ok (show onError _ _ w₂ = _ by rw [onError, hc])]
  exact ⟨_,t,h',rfl,hrun'⟩

end Creation

/-! ## Spawn -/

def notStarting (creation : Outside) : SpawnOutside := ⟨creation,false,none,false,some "failed"⟩

section Spawn
variable {b : BoxConfig} {config : SpawnConfig} {profile : Profile} {creation : Outside} {s : BoxState}

theorem spawn_notStarting (hp : config.opts = .ok profile) (hl : b.getManifestLayers config.name ≠ "") :
    spawn (notStarting creation) b config = (do
      let pr ← inWorld (newContainer creation (b.containerConfig config profile))
      Prog.modify fun s => { s with containers := Function.update s.containers pr.containerID (some pr) }
      inWorld pr.cleanup
      Prog.modify fun s => { s with containers := Function.update s.containers pr.containerID (some pr.cleaned) }
      Prog.throw (.start "failed")) := by
  unfold spawn notStarting
  rw [hp]
  dsimp only
  rw [if_neg Bool.false_ne_true, if_neg hl, if_neg Bool.false_ne_true]

theorem spawn_of_newContainer_error (hp : config.opts = .ok profile) (hl : b.getManifestLayers config.name ≠ "")
    {err : Err} {w : World} (hw : newContainer creation (b.containerConfig config profile) s.world = (.error err,w)) :
    spawn (notStarting creation) b config s = (.error (.newContainer err),{ s with world := w }) := by
  have hin : inWorld (newContainer creation (b.containerConfig config profile)) s =
      (.error (.newContainer err),{ s with world := w }) := by
    rw [inWorld_apply, hw]
    rfl
  rw [spawn_notStarting hp hl]
  exact bind_error hin _

theorem spawn_of_newContainer_ok (hp : config.opts = .ok profile) (hl : b.getManifestLayers config.name ≠ "")
    {pr : Container} {w : World} (hw : newContainer creation (b.containerConfig config profile) s.world = (.ok pr,w)) :
    spawn (notStarting creation) b config s = (.error (.start "failed"),
      ⟨(pr.cleanup w).2,Function.update s.containers pr.containerID (some pr.cleaned)⟩) := by
  have hin : inWorld (newContainer creation (b.containerConfig config profile)) s = (.ok pr,{ s with world := w }) := by
    rw [inWorld_apply, hw]
    rfl
  obtain ⟨u,w',hclean⟩ := (cleanup_failsIff pr).exists_ok not_false w
  have hin' : inWorld pr.cleanup ⟨w,Function.update s.containers pr.containerID (some pr)⟩ =
      (.ok u,⟨(pr.cleanup w).2,Function.update s.containers pr.containerID (some pr)⟩) := by
    rw [inWorld_apply]
    dsimp only
    rw [hclean]
    rfl
  rw [spawn_notStarting hp hl, bind_ok hin,
    bind_ok (show Prog.modify _ _ = (.ok (),⟨w,Function.update s.containers pr.containerID (some pr)⟩) from rfl),
    bind_ok hin',
    bind_ok (show Prog.modify _ _ = (.ok (),⟨(pr.cleanup w).2,Function.update s.containers pr.containerID
      (some pr.cleaned)⟩) from congrArg (fun f => (Outcome.ok (),BoxState.mk _ f)) (Function.update_idem ..))]
  rfl

theorem cleanup_removes {cwd : List String} {h₀ h : Host} {pr : Container} {w : World} (hc : pr.cleanupEnabled = true)
    (hrun : Runs (Host.call cwd) h₀ w.log h) : Removes cwd h₀ (pr.cleanup w).2.log pr.rootDir := by
  obtain ⟨u,w₁,hu⟩ := (unuse_failsIff pr).exists_ok not_false w
  have hsame := unuse_sameButMtn pr w
  rw [hu] at hsame
  have hlog : w₁.log = w.log := hsame.log
  have heq : pr.cleanup w = (do
      cleanUpOnError pr.volumes
      always [.destroy pr.containerID,.removeAll pr.rootDir]) w₁ := by
    rw [Container.cleanup, bind_ok hu, if_pos hc]
    rfl
  rw [heq, bind_ok (cleanUpOnError_apply _ w₁)]
  refine ⟨w.log,(pr.volumes.flatMap fun v => (w₁.volume v).destroyCalls v) ++
    [.destroy pr.containerID,.removeAll pr.rootDir],h,?_,hrun,?_,?_⟩
  · simp [always, Prog.modify, World.record, hlog]
  · intro call hm
    rcases List.mem_append.mp hm with hm | hm
    · obtain ⟨v,-,hv⟩ := List.mem_flatMap.mp hm
      exact destroyCalls_clears _ v call hv
    · simp only [List.mem_cons, List.not_mem_nil, or_false] at hm
      rcases hm with rfl | rfl <;> rfl
  · simp

/-- A request that does not spare the container can fail so that one of the directories
in question is removed. -/
theorem spawn_removes {cwd : List String} {dirs : List String} {id : String} (hp : config.opts = .ok profile)
    (hl : b.getManifestLayers config.name ≠ "") (hs : ¬Spares cwd (b.containerConfig config profile) dirs id)
    (heap : List Volume) :
    ∃ o p mtn, ¬Clear cwd dirs p ∧ mtn.db[""]? = none ∧ ∀ containers h₀, Free cwd dirs [] h₀ →
      (∀ i, i ≠ id → h₀.containers i = none) →
        ∃ e t, spawn o b config ⟨⟨heap,[],mtn⟩,containers⟩ = (.error e,t) ∧ Removes cwd h₀ t.world.log p := by
  let c := b.containerConfig config profile
  have hempty : (⟨∅,silent⟩ : Store).db[""]? = none := by simp
  by_cases hroot : Clear cwd dirs (rootPath c)
  · by_cases hextra : ∀ p ∈ extraDirs cwd c [resolve cwd (rootPath c)] c.profile.extraVolumes, Clear cwd dirs p
    · have hdir : ¬(AllCreated cwd c [resolve cwd (rootPath c)] c.profile.extraVolumes → c.id ≠ id →
          (c.asksMtn → c.netid ≠ "") → c.cleanupEnabled = true → Clear cwd dirs c.root) :=
        fun h => hs ⟨hroot,hextra,h⟩
      push Not at hdir
      obtain ⟨hall,hid,hnet,hclean,hnot⟩ := hdir
      obtain ⟨mtn,hdb,hmtn⟩ := exists_store hnet
      refine ⟨notStarting ⟨fun _ => none,[],[],[]⟩,c.root,mtn,hnot,hdb,?_⟩
      intro containers h₀ hfree hcont
      obtain ⟨pr,w,h,hw,hrun⟩ := newContainer_quiet (o := ⟨fun _ => none,[],[],[]⟩) heap (fun _ => rfl) hroot hextra
        hall hmtn hfree (hcont _ hid)
      refine ⟨_,_,spawn_of_newContainer_ok hp hl hw,?_⟩
      obtain ⟨w₁,w₂,c',h₁,h₂,h₃,hid',hdir',hclean',-⟩ := newContainer_ok hw
      obtain ⟨-,-,hdir'',hclean'',-,-⟩ := createContainer_config h₃
      have hrem := cleanup_removes (hclean'.trans (hclean''.trans hclean)) hrun
      rw [hdir', hdir''] at hrem
      exact hrem
    · push Not at hextra
      obtain ⟨o,p,hnot,hall⟩ := newContainer_createExtra_fails hroot hextra heap ⟨∅,silent⟩
      refine ⟨notStarting o,p,⟨∅,silent⟩,hnot,hempty,?_⟩
      intro containers h₀ hfree _
      obtain ⟨e,t,hw,hrem⟩ := hall h₀ hfree
      exact ⟨_,_,spawn_of_newContainer_error hp hl hw,hrem⟩
  · refine ⟨notStarting (failing .createRoot),rootPath c,⟨∅,silent⟩,hroot,hempty,?_⟩
    intro containers h₀ _ _
    obtain ⟨t,hw,hrem⟩ := newContainer_createRoot_fails (o := failing .createRoot) (failing_other nofun)
      (failing_self _) c cwd heap ⟨∅,silent⟩ h₀
    exact ⟨_,_,spawn_of_newContainer_error hp hl hw,hrem⟩

end Spawn

/-- A spawn for a root volume that is there already: it is refused before anything is
done, or the directory of the volume is removed. -/
theorem spawn_sameRoot {o : SpawnOutside} {b : BoxConfig} {config : SpawnConfig} {profile : Profile} {cwd : List String}
    {heap : List Volume} {mtn : Store} {containers : String → Option Container} {h h' : Host} {t : BoxState} {e : SpawnError}
    (hp : config.opts = .ok profile)
    (hroot : (h.volumes (resolve cwd (rootPath (b.containerConfig config profile)))).isSome = true)
    (hm : spawn o b config ⟨⟨heap,[],mtn⟩,containers⟩ = (.error e,t)) (hplay : Runs (Host.call cwd) h t.world.log h') :
    t = ⟨⟨heap,[],mtn⟩,containers⟩ ∨ h'.node (resolve cwd (rootPath (b.containerConfig config profile))) = none := by
  obtain rfl | ⟨profile',hp',-,hcases⟩ := spawn_error hm
  · exact .inl rfl
  cases hp.symm.trans hp'
  cases hf₁ : o.creation.fault .mkdirRoot with
  | some err =>
    have hr : newContainer o.creation (b.containerConfig config profile) ⟨heap,[],mtn⟩ = (.error (.text err),⟨heap,[],mtn⟩) := by
      refine bind_error (bind_error ?_ _) _
      rw [trying, hf₁]
      rfl
    rcases hcases with ⟨_,w,hw,rfl⟩ | ⟨pr,w,hw,-⟩
    · cases hr.symm.trans hw
      exact .inl rfl
    · cases hr.symm.trans hw
  | none =>
    cases hf₂ : o.creation.fault .createRoot with
    | some err =>
      obtain ⟨w,hr,hrem⟩ := newContainer_createRoot_fails hf₁ hf₂ (b.containerConfig config profile) cwd heap mtn h
      rcases hcases with ⟨_,w',hw,rfl⟩ | ⟨pr,w',hw,-⟩
      · cases hr.symm.trans hw
        obtain ⟨h₁,hrun,hgone⟩ := hrem.runs
        cases hrun.functional hplay
        exact .inr (hgone _ List.suffix_rfl)
      · cases hr.symm.trans hw
    | none =>
      -- porto would have created a second volume at the place
      exfalso
      have hr := createRootVolume_prepared hf₁ (b.containerConfig config profile) ⟨heap,[],mtn⟩
      rw [bind_ok (onError_trying_quiet hf₂ _ _ _)] at hr
      have hcreated : ∃ h₂, Runs (Host.call cwd) h [.mkdirAll (rootPath (b.containerConfig config profile)),
          .createVolume heap.length (rootPath (b.containerConfig config profile))
            (rootProperties (b.containerConfig config profile))] h₂ := by
        rcases hcases with ⟨_,w,hw,rfl⟩ | ⟨pr,w,hw,rfl⟩
        · exact (newContainer_grows hr hw).played ⟨h',hplay⟩
        · exact (newContainer_grows hr hw).played (LogGrows.played (cleanup_grows pr w) ⟨h',hplay⟩)
      obtain ⟨h₂,hrun⟩ := hcreated
      cases hrun with
      | step hone hrest =>
        cases hone
        cases hrest with
        | step htwo _ =>
          have hnone := (createVolume_accepted htwo).1
          dsimp only at hnone
          rw [hnone] at hroot
          cases hroot

/-! ## Live containers -/

section Live
variable {cwd : List String} {heap : List Volume} {x : Container}

theorem live_liveHost (z : List String) (mtn : Store) :
    Live cwd (liveHost cwd heap x z) ⟨⟨heap,[],mtn⟩,fun i => if i = x.containerID then some x else none⟩ x where
  entry := if_pos rfl
  created := by simp [liveHost]
  mounted v hv := by
    have hm : resolve cwd (heap.getD v default).path ∈ x.volumes.map fun v => resolve cwd (heap.getD v default).path :=
      List.mem_map_of_mem hv
    exact congrArg Option.isSome (if_pos hm)
  present p hp := by
    refine (FileTree.above_node _ _).trans (if_pos (.inr ⟨resolve cwd p,?_,List.suffix_rfl⟩))
    exact List.mem_cons_of_mem z (List.mem_map_of_mem hp)

theorem liveHost_free (z : List String) : Free cwd (x.dirs heap) [] (liveHost cwd heap x z) := by
  intro q _ hq
  refine if_neg fun hm => hq ?_
  obtain ⟨v,hv,rfl⟩ := List.mem_map.mp hm
  exact List.mem_map_of_mem (List.mem_flatMap.mpr ⟨v,hv,List.mem_cons_self⟩)

theorem liveHost_node (z : List String) : (liveHost cwd heap x z).node z = some .dir :=
  (FileTree.above_node _ _).trans (if_pos (.inr ⟨z,List.mem_cons_self,List.suffix_rfl⟩))

theorem exists_common {dirs : List String} {p : String} (h : ¬Clear cwd dirs p) :
    ∃ d ∈ dirs, ∃ z, resolve cwd p <:+ z ∧ resolve cwd d <:+ z := by
  unfold Clear at h
  push Not at h
  obtain ⟨d,hd,himp⟩ := h
  by_cases hs : resolve cwd p <:+ resolve cwd d
  · exact ⟨d,hd,resolve cwd d,hs,List.suffix_rfl⟩
  · exact ⟨d,hd,resolve cwd p,List.suffix_rfl,himp hs⟩

/-- A failing spawn leaves a live container as it is, whatever fails and whatever else
is on the host, exactly when its request is refused before anything is created, or none
of the directories it names is one of the container's, or above or below one. -/
theorem spawn_intact_iff (cwd : List String) (b : BoxConfig) (config : SpawnConfig) {heap : List Volume} {x : Container}
    (hx : ∀ v ∈ x.volumes, v < heap.length) :
    (∀ o mtn containers h h' e t, mtn.db[""]? = none → Live cwd h ⟨⟨heap,[],mtn⟩,containers⟩ x →
      spawn o b config ⟨⟨heap,[],mtn⟩,containers⟩ = (.error e,t) → Runs (Host.call cwd) h t.world.log h' →
        Intact cwd x ⟨⟨heap,[],mtn⟩,containers⟩ h t h') ↔
      ∀ profile, config.opts = .ok profile → b.getManifestLayers config.name ≠ "" →
        Spares cwd (b.containerConfig config profile) (x.dirs heap) x.containerID := by
  constructor
  · intro hall profile hp hl
    by_contra hs
    obtain ⟨o,p,mtn,hnot,hdb,hrem⟩ := spawn_removes hp hl hs heap
    obtain ⟨d,hd,z,hpz,hdz⟩ := exists_common hnot
    obtain ⟨e,t,ht,hlog⟩ := hrem (fun i => if i = x.containerID then some x else none) (liveHost cwd heap x z)
      (liveHost_free z) (fun i hi => if_neg hi)
    obtain ⟨h',hrun,hgone⟩ := hlog.runs
    have hint := hall o mtn _ _ h' e t hdb (live_liveHost z mtn) ht hrun
    have hnode := hint.dirs d hd z hdz
    rw [hgone z hpz, liveHost_node] at hnode
    cases hnode
  · intro hs o mtn containers h h' e t hdb hlive hm hplay
    exact spawn_intact hx hs hdb hlive hm hplay

end Live

/-! ## Two applications with one container -/

instance (cwd dirs : List String) (path : String) : Decidable (Clear cwd dirs path) :=
  inferInstanceAs (Decidable (∀ d ∈ dirs, ¬resolve cwd path <:+ resolve cwd d ∧ ¬resolve cwd d <:+ resolve cwd path))

def contBox : BoxConfig :=
  ⟨"porto","","/cont",true,false,"overlay","cocaine-app","","",⟨false,0,"","","",[]⟩,fun _ => "layer"⟩

def plainProfile : Profile := ⟨"registry","inherited",∅,"",[],∅,∅,[]⟩

def worker (name : String) : SpawnConfig :=
  ⟨.ok plainProfile,name,"/app/run",(∅ : Map).insert "--uuid" "1",∅⟩

def abContainer : Container := ⟨"1","a_b_1","","/cont/a_b_1",true,false,0,[],"cocaine-app",false,"","",true⟩

def abHeap : List Volume := [⟨"a_b_1","/cont/a_b_1/volume",true,∅,none⟩]

/-- Another application does not touch it. -/
theorem spawn_intact_other :
    (∀ v ∈ abContainer.volumes, v < abHeap.length) ∧
    ∀ o mtn containers h h' e t, mtn.db[""]? = none → Live [] h ⟨⟨abHeap,[],mtn⟩,containers⟩ abContainer →
      spawn o contBox (worker "c") ⟨⟨abHeap,[],mtn⟩,containers⟩ = (.error e,t) → Runs (Host.call []) h t.world.log h' →
        Intact [] abContainer ⟨⟨abHeap,[],mtn⟩,containers⟩ h t h' := by
  have hx : ∀ v ∈ abContainer.volumes, v < abHeap.length := by decide
  refine ⟨hx,(spawn_intact_iff [] contBox (worker "c") hx).mpr ?_⟩
  intro profile hp _
  cases hp
  refine ⟨?_,nofun,fun _ _ _ _ => ?_⟩
  · decide +kernel
  · decide +kernel

/-- The application `a_b` has the same container for the same worker: porto refuses its
root volume, and the directory of the volume that is there is removed. -/
theorem spawn_removes_sameId :
    abHeap.map Volume.path = [rootPath (contBox.containerConfig (worker "a:b") plainProfile)] ∧
    ∃ o mtn containers h h' e t, mtn.db[""]? = none ∧ Live [] h ⟨⟨abHeap,[],mtn⟩,containers⟩ abContainer ∧
      spawn o contBox (worker "a_b") ⟨⟨abHeap,[],mtn⟩,containers⟩ = (.error e,t) ∧ Runs (Host.call []) h t.world.log h' ∧
      h.node ["volume","a_b_1","cont"] = some .dir ∧ h'.node ["volume","a_b_1","cont"] = none ∧
      ¬Intact [] abContainer ⟨⟨abHeap,[],mtn⟩,containers⟩ h t h' := by
  refine ⟨by decide +kernel,notStarting (failing .createRoot),⟨∅,silent⟩,
    fun i => if i = abContainer.containerID then some abContainer else none,
    liveHost [] abHeap abContainer ["volume","a_b_1","cont"],?_⟩
  obtain ⟨t,hw,hrem⟩ := newContainer_createRoot_fails (o := failing .createRoot) (failing_other nofun) (failing_self _)
    (contBox.containerConfig (worker "a_b") plainProfile) [] abHeap ⟨∅,silent⟩
    (liveHost [] abHeap abContainer ["volume","a_b_1","cont"])
  obtain ⟨h',hrun,hgone⟩ := hrem.runs
  have hplace : resolve [] (rootPath (contBox.containerConfig (worker "a_b") plainProfile)) =
      ["volume","a_b_1","cont"] := by decide +kernel
  have hnone := hgone ["volume","a_b_1","cont"] (by rw [hplace])
  have hdir : "/cont/a_b_1/volume" ∈ abContainer.dirs abHeap := by decide +kernel
  have hdir' : resolve [] "/cont/a_b_1/volume" = ["volume","a_b_1","cont"] := by decide +kernel
  refine ⟨h',_,_,by simp,live_liveHost _ _,spawn_of_newContainer_error rfl (by decide) hw,hrun,liveHost_node _,hnone,?_⟩
  intro hint
  have hnode := hint.dirs _ hdir ["volume","a_b_1","cont"] (by rw [hdir'])
  rw [hnone, liveHost_node] at hnode
  cases hnode

end Stout.Porto
