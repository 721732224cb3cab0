import Stout.Isolate.MtnFailures
import Stout.Porto.Spawn

/-! # The calls of a spawn

Which calls each part of a spawn adds to the log, what the host makes of them, and how
a spawn that fails has ended.
-/
namespace Stout.Porto
open Prog Mtn
open Paths (join resolve)

/-! ## Calls on the host -/

section Host
variable {cwd : List String} {h h' : Host}

theorem runs_mkdirAll_volumes {log : List Call} (hr : Runs (Host.call cwd) h log h')
    (hl : ∀ call ∈ log, ∃ p, call = .mkdirAll p) : h'.volumes = h.volumes ∧ h'.containers = h.containers := by
  induction hr with
  | refl h => exact ⟨rfl,rfl⟩
  | step hcall _ ih =>
    obtain ⟨p,rfl⟩ := hl _ List.mem_cons_self
    cases hcall
    exact ih fun call hm => hl call (List.mem_cons_of_mem _ hm)

theorem createVolume_accepted {v : ℕ} {p : String} {properties : Map}
    (hc : h.call cwd (.createVolume v p properties) = some h') :
    h.volumes (resolve cwd p) = none ∧
      h' = { h with volumes := Function.update h.volumes (resolve cwd p) (some ⟨properties,["/"]⟩) } := by
  simp only [Host.call] at hc
  split at hc
  · cases hc
  · rename_i hn
    cases hc
    exact ⟨by simpa using hn,rfl⟩

end Host

/-! ## The log grows -/

def LogGrows (w t : World) : Prop := w.log <+: t.log

instance : IsPreorder World LogGrows where
  refl _ := List.prefix_rfl
  trans _ _ _ h k := List.IsPrefix.trans h k

theorem always_grows (calls : List Call) : Moves LogGrows (always calls) := fun _ => ⟨calls,rfl⟩

theorem trying_grows (o : Outside) (p : Point) (call : Call) : Moves LogGrows (trying o p call) := by
  unfold trying
  cases o.fault p with
  | none => exact always_grows _
  | some e => exact .throw _

theorem destroyVolume_grows (v : ℕ) : Moves LogGrows (destroyVolume v) := fun _ => ⟨_,rfl⟩

theorem cleanUpOnError_grows (volumes : List ℕ) : Moves LogGrows (cleanUpOnError volumes) :=
  Moves.forM destroyVolume_grows

theorem newVolume_grows (volume : Volume) : Moves LogGrows (newVolume volume) := fun _ => List.prefix_rfl

theorem update_grows (v : ℕ) (f : Volume → Volume) : Moves LogGrows (update v f) := fun _ => List.prefix_rfl

theorem createStorage_grows (o : Outside) (c : ContainerConfig) (i : ℕ) (vp : VolumeProfile) (volumes : List ℕ) (v : ℕ) :
    Moves LogGrows (createStorage o c i vp volumes v) := by
  unfold createStorage
  dsimp only
  split
  · exact ((trying_grows o _ _).onError (cleanUpOnError_grows volumes)).bind fun _ =>
      (update_grows v _).bind fun _ => .pure _
  · exact .pure _

theorem createExtra_grows (o : Outside) (c : ContainerConfig) (rp : String) (i : ℕ) (volumes : List ℕ)
    (l : List VolumeProfile) : Moves LogGrows (createExtra o c rp i volumes l) := by
  induction l generalizing i volumes with
  | nil => exact .pure _
  | cons vp rest ih =>
    unfold createExtra
    split
    · exact (cleanUpOnError_grows volumes).bind fun _ => .throw _
    · exact ((trying_grows o _ _).onError (cleanUpOnError_grows volumes)).bind fun _ =>
        (newVolume_grows _).bind fun v => (createStorage_grows o c i vp _ v).bind fun _ =>
          ((trying_grows o _ _).onError (cleanUpOnError_grows _)).bind fun _ => ih _ _

structure SameButMtn (w t : World) : Prop where
  log : t.log = w.log
  volumes : t.volumes = w.volumes

theorem SameButMtn.grows {w t : World} (h : SameButMtn w t) : LogGrows w t := ⟨[],by rw [List.append_nil, h.log]⟩

theorem network_sameButMtn (c : ContainerConfig) (properties : Map) (w : World) :
    SameButMtn w (network c properties w).2 := by
  by_cases hask : c.asksMtn
  · rw [network_of_asksMtn hask]
    rcases useAlloc c.mtnCfg c.netid c.boxName w.mtn with ⟨r,st⟩
    cases r <;> exact ⟨rfl,rfl⟩
  · rw [network_of_not_asksMtn hask]
    exact ⟨rfl,rfl⟩

theorem network_config {c : ContainerConfig} {properties : Map} {w t : World} {r : Map × ContainerConfig}
    (h : network c properties w = (.ok r,t)) :
    r.2.id = c.id ∧ r.2.root = c.root ∧ r.2.cleanupEnabled = c.cleanupEnabled ∧ r.2.args = c.args ∧
      (c.asksMtn → ∃ a st, useAlloc c.mtnCfg c.netid c.boxName w.mtn = (.ok a,st)) := by
  by_cases hask : c.asksMtn
  · rw [network_of_asksMtn hask] at h
    rcases hu : useAlloc c.mtnCfg c.netid c.boxName w.mtn with ⟨o,st⟩
    rw [hu] at h
    cases o with
    | ok a =>
      cases h
      exact ⟨rfl,rfl,rfl,rfl,fun _ => ⟨a,st,rfl⟩⟩
    | error e => cases h
    | panic p => cases h
  · rw [network_of_not_asksMtn hask] at h
    cases h
    exact ⟨rfl,rfl,rfl,rfl,fun hn => absurd hn hask⟩

theorem finish_grows (o : Outside) (root : ℕ) (extraVolumes : List ℕ) (r : Map × ContainerConfig) :
    Moves LogGrows (finish o root extraVolumes r) := by
  intro w
  obtain ⟨l,hl,-⟩ := (finish_adds o root extraVolumes r w).log
  exact ⟨l,hl.symm⟩

theorem creating_grows (o : Outside) (c : ContainerConfig) (properties : Map) (root : ℕ) (extraVolumes : List ℕ) :
    Moves LogGrows (onError (network c properties >>= finish o root extraVolumes) (always [.destroy c.id])) := by
  have hn : Moves LogGrows (network c properties) := fun w => (network_sameButMtn c properties w).grows
  exact (hn.bind fun r => finish_grows o root extraVolumes r).onError (always_grows _)

section Whole
variable {o : Outside} {c : ContainerConfig} {w t : World}

theorem createContainer_grows (o : Outside) (c : ContainerConfig) (root : ℕ) (extraVolumes : List ℕ) :
    Moves LogGrows (createContainer o c root extraVolumes) := by
  intro w
  cases hf : o.fault .create with
  | some e =>
    rw [createContainer_of_fault hf]
    exact refl_of LogGrows w
  | none =>
    rw [createContainer_of_create hf]
    have hone : LogGrows w (w.record [.create c.id]) := ⟨_,rfl⟩
    exact trans_of LogGrows hone (creating_grows o c _ root extraVolumes _)

theorem createExtraVolumes_grows (o : Outside) (c : ContainerConfig) (root : ℕ) :
    Moves LogGrows (createExtraVolumes o c root) := Moves.read.bind fun _ => createExtra_grows o c _ 0 [] _

theorem newContainer_grows {w₀ : World} {root : ℕ} {r : Outcome Err Container}
    (hroot : createRootVolume o c w₀ = (.ok root,w)) (hm : newContainer o c w₀ = (r,t)) : LogGrows w t := by
  rw [newContainer, bind_ok hroot] at hm
  refine Moves.of_eq (R := LogGrows) ?_ hm
  exact ((createExtraVolumes_grows o c root).onError (destroyVolume_grows root)).bind fun extraVolumes =>
    ((createContainer_grows o c root extraVolumes).onError (destroyVolume_grows root)).bind fun _ => .pure _

theorem createContainer_config {root : ℕ} {extraVolumes : List ℕ} {c' : ContainerConfig}
    (hm : createContainer o c root extraVolumes w = (.ok c',t)) :
    o.fault .create = none ∧ c'.id = c.id ∧ c'.root = c.root ∧ c'.cleanupEnabled = c.cleanupEnabled ∧
      c'.args = c.args ∧ (c.asksMtn → ∃ a st, useAlloc c.mtnCfg c.netid c.boxName w.mtn = (.ok a,st)) := by
  cases hf : o.fault .create with
  | some e =>
    rw [createContainer_of_fault hf] at hm
    cases hm
  | none =>
    rw [createContainer_of_create hf] at hm
    obtain ⟨r,w₁,hn,hm⟩ := of_bind_ok (of_onError_ok hm)
    obtain ⟨_,w₂,-,hm⟩ := of_bind_ok hm
    obtain ⟨_,w₃,-,hm⟩ := of_bind_ok hm
    cases hm
    have hconfig := network_config hn
    rw [record_mtn] at hconfig
    exact ⟨rfl,hconfig⟩

theorem newContainer_ok {w₀ : World} {pr : Container} (hm : newContainer o c w₀ = (.ok pr,t)) :
    ∃ w₁ w₂ c', createRootVolume o c w₀ = (.ok pr.volume,w₁) ∧
      createExtraVolumes o c pr.volume w₁ = (.ok pr.extraVolumes,w₂) ∧
      createContainer o c pr.volume pr.extraVolumes w₂ = (.ok c',t) ∧
      pr.containerID = c'.id ∧ pr.rootDir = c'.root ∧ pr.cleanupEnabled = c'.cleanupEnabled ∧
      pr.uuid = lookup c'.args "--uuid" := by
  obtain ⟨root,w₁,hroot,hm⟩ := of_bind_ok hm
  obtain ⟨extraVolumes,w₂,hextra,hm⟩ := of_bind_ok hm
  obtain ⟨c',w₃,hcont,hm⟩ := of_bind_ok hm
  cases hm
  exact ⟨w₁,w₂,c',hroot,of_onError_ok hextra,of_onError_ok hcont,rfl,rfl,rfl,rfl⟩

theorem LogGrows.played {cwd : List String} {h₀ : Host} (hg : LogGrows w t) (hplay : ∃ h', Runs (Host.call cwd) h₀ t.log h') :
    ∃ h', Runs (Host.call cwd) h₀ w.log h' := by
  obtain ⟨rest,hrest⟩ := hg
  obtain ⟨h',hr⟩ := hplay
  rw [← hrest] at hr
  obtain ⟨h₁,hr₁,-⟩ := hr.split
  exact ⟨h₁,hr₁⟩

end Whole

/-! ## Spawn -/

def inWorldOutcome {α : Type} : Outcome Err α → Outcome SpawnError α
  | .ok a => .ok a
  | .error e => .error (.newContainer e)
  | .panic p => .panic p

theorem inWorld_apply {α : Type} (m : Run α) (s : BoxState) :
    inWorld m s = (inWorldOutcome (m s.world).1,{ s with world := (m s.world).2 }) := by
  unfold inWorld mapError zoom
  rcases m s.world with ⟨r,w⟩
  cases r <;> rfl

theorem of_inWorld_ok {α : Type} {m : Run α} {s t : BoxState} {a : α} (h : inWorld m s = (.ok a,t)) :
    ∃ w, m s.world = (.ok a,w) ∧ t = { s with world := w } := by
  rw [inWorld_apply] at h
  rcases hm : m s.world with ⟨r,w⟩
  rw [hm] at h
  cases r <;> cases h
  exact ⟨w,rfl,rfl⟩

theorem of_inWorld_error {α : Type} {m : Run α} {s t : BoxState} {e : SpawnError} (h : inWorld m s = (.error e,t)) :
    ∃ err w, m s.world = (.error err,w) ∧ t = { s with world := w } := by
  rw [inWorld_apply] at h
  rcases hm : m s.world with ⟨r,w⟩
  rw [hm] at h
  cases r <;> cases h
  exact ⟨_,w,rfl,rfl⟩

theorem unuseAlloc_failsIff (netId id : String) : FailsIff False (unuseAlloc netId id) := by
  intro w
  have hsafe : ∀ p, (texts.freeDbAlloc netId id w).1 ≠ .panic p := freeDbAlloc_safe netId id w trivial
  unfold unuseAlloc Codec.unuseAlloc attempt
  rcases hf : texts.freeDbAlloc netId id w with ⟨r,t⟩
  rw [hf] at hsafe
  cases r with
  | ok u => exact .inr ⟨not_false,_,rfl⟩
  | error e => exact .inr ⟨not_false,_,rfl⟩
  | panic p => exact absurd rfl (hsafe p)

theorem unuse_failsIff (c : Container) : FailsIff False c.unuse := by
  unfold Container.unuse
  split
  · refine (FailsIff.bind ?_ fun _ => FailsIff.pure ()).congr or_self_iff
    intro w
    rcases unuseAlloc_failsIff c.netId c.mtnAllocationId w.mtn with ⟨hn,-⟩ | ⟨-,a,ha⟩
    · exact hn.elim
    · refine .inr ⟨not_false,a,?_⟩
      unfold mapError zoom
      rcases hu : unuseAlloc c.netId c.mtnAllocationId w.mtn with ⟨r,t⟩
      rw [hu] at ha
      cases ha
      rfl
  · exact .pure ()

theorem cleanup_failsIff (c : Container) : FailsIff False c.cleanup := by
  unfold Container.cleanup
  have hone : FailsIff False (destroyVolume c.volume) := .modify _
  have hall : FailsIff False (c.extraVolumes.forM destroyVolume) := cleanUpOnError_failsIff c.extraVolumes
  refine ((unuse_failsIff c).bind fun _ => ?_).congr (or_self_iff)
  split
  · exact (hone.bind fun _ => (hall.bind fun _ => always_failsIff _).congr or_self_iff).congr or_self_iff
  · exact .pure ()

theorem unuse_sameButMtn (c : Container) (w : World) : SameButMtn w (c.unuse w).2 := by
  unfold Container.unuse
  split
  · rw [bind_pure_apply]
    unfold mapError zoom
    dsimp only
    rcases unuseAlloc c.netId c.mtnAllocationId w.mtn with ⟨r,st⟩
    cases r <;> exact ⟨rfl,rfl⟩
  · exact ⟨rfl,rfl⟩

theorem cleanup_grows (c : Container) : Moves LogGrows c.cleanup := by
  have hunuse : Moves LogGrows c.unuse := fun w => (unuse_sameButMtn c w).grows
  refine hunuse.bind fun _ => ?_
  split
  · exact (destroyVolume_grows c.volume).bind fun _ => (Moves.forM destroyVolume_grows).bind fun _ => always_grows _
  · exact .pure _

/-- What an admitted request runs. -/
def launch (o : SpawnOutside) (c : ContainerConfig) : Prog BoxState SpawnError Container := do
  let pr ← inWorld (newContainer o.creation c)
  Prog.modify fun s => { s with containers := Function.update s.containers pr.containerID (some pr) }
  match o.start with
  | some err => do
    inWorld pr.cleanup
    Prog.modify fun s => { s with containers := Function.update s.containers pr.containerID (some pr.cleaned) }
    Prog.throw (.start err)
  | none => pure pr

theorem spawn_cases (o : SpawnOutside) (b : BoxConfig) (config : SpawnConfig) (s : BoxState) :
    (∃ e, spawn o b config s = (.error e,s)) ∨ ∃ profile, config.opts = .ok profile ∧
      b.getManifestLayers config.name ≠ "" ∧ spawn o b config s = launch o (b.containerConfig config profile) s := by
  unfold spawn
  cases config.opts with
  | error err => exact .inl ⟨_,rfl⟩
  | ok profile =>
    dsimp only
    by_cases hq : o.queueFull = true
    · rw [if_pos hq]
      exact .inl ⟨_,rfl⟩
    by_cases hl : b.getManifestLayers config.name = ""
    · rw [if_neg hq, if_pos hl]
      exact .inl ⟨_,rfl⟩
    rw [if_neg hq, if_neg hl]
    cases o.portoConnect with
    | some err => exact .inl ⟨_,rfl⟩
    | none =>
      dsimp only
      by_cases hx : o.cancelled = true
      · rw [if_pos hx]
        exact .inl ⟨_,rfl⟩
      · rw [if_neg hx]
        exact .inr ⟨profile,rfl,hl,rfl⟩

theorem launch_error {o : SpawnOutside} {c : ContainerConfig} {s t : BoxState} {e : SpawnError}
    (h : launch o c s = (.error e,t)) :
    (∃ err w, newContainer o.creation c s.world = (.error err,w) ∧ t = { s with world := w }) ∨
      ∃ pr w, newContainer o.creation c s.world = (.ok pr,w) ∧
        t = ⟨(pr.cleanup w).2,Function.update s.containers pr.containerID (some pr.cleaned)⟩ := by
  rcases of_bind_error h with h | ⟨pr,s₁,hpr,h⟩
  · obtain ⟨err,w,hw,ht⟩ := of_inWorld_error h
    exact .inl ⟨err,w,hw,ht⟩
  · obtain ⟨w,hw,rfl⟩ := of_inWorld_ok hpr
    refine .inr ⟨pr,w,hw,?_⟩
    rcases of_bind_error h with h | ⟨_,s₂,hs₂,h⟩
    · cases h
    cases hs₂
    cases hst : o.start with
    | none =>
      simp only [hst] at h
      cases h
    | some err =>
      simp only [hst] at h
      rcases of_bind_error h with h | ⟨_,s₃,hs₃,h⟩
      · obtain ⟨err',w',hw',-⟩ := of_inWorld_error h
        exact absurd (cleanup_failsIff pr |>.error hw') not_false
      · obtain ⟨w',hw',rfl⟩ := of_inWorld_ok hs₃
        cases h
        dsimp only at hw' ⊢
        rw [hw', Function.update_idem]

/-- A failed spawn has done nothing, or its container could not be created, or it could
not be started and has been cleaned up. -/
theorem spawn_error {o : SpawnOutside} {b : BoxConfig} {config : SpawnConfig} {s t : BoxState} {e : SpawnError}
    (h : spawn o b config s = (.error e,t)) :
    t = s ∨ ∃ profile, config.opts = .ok profile ∧ b.getManifestLayers config.name ≠ "" ∧
      ((∃ err w, newContainer o.creation (b.containerConfig config profile) s.world = (.error err,w) ∧
          t = { s with world := w }) ∨
      ∃ pr w, newContainer o.creation (b.containerConfig config profile) s.world = (.ok pr,w) ∧
        t = ⟨(pr.cleanup w).2,Function.update s.containers pr.containerID (some pr.cleaned)⟩) := by
  rcases spawn_cases o b config s with ⟨e',hs⟩ | ⟨profile,hp,hl,hs⟩
  · rw [hs] at h
    cases h
    exact .inl rfl
  · rw [hs] at h
    exact .inr ⟨profile,hp,hl,launch_error h⟩

end Stout.Porto
