import Stout.Library.Threads
import Stout.Porto.StartupGc

/-! # What the collection at start-up frees

Each allocation of the box that was listed is a stray, held in the database and by no
spawn, or its address is found on the way. A stray stays one until the collection frees
it, since nobody can take what is marked used.
-/
namespace Stout.Porto.StartupGc
open Std (ExtTreeMap)
open Mtn Threads

/-! ## Invariant -/

def Spawn.lease (sp : Spawn) : Option (String × String) := sp.allocation.map Allocation.key

def State.owners (s : State) : List (Option (String × String)) := s.spawns.map Spawn.lease

def State.Stray (s : State) (k : String × String) : Prop := Lease.Stray (held s.db) s.owners k

/-- The used allocations of the box are strays, or their address will be found. -/
structure Scanning (b : Box) (stray : String × String → Prop) (watched : List (String × Allocation))
    (names ips : List String) (used : List Allocation) : Prop where
  nodup : (used.map Allocation.key).Nodup
  strays : ∀ a ∈ used, a.box = b.name → stray a.key ∨ ∃ h ∈ watched, h.2.ip = a.ip
  found : ∀ h ∈ watched, h.1 ∈ names ∨ h.2.ip ∈ ips

structure Freeing (b : Box) (stray : String × String → Prop) (rest : List Allocation) : Prop where
  nodup : (rest.map Allocation.key).Nodup
  strays : ∀ a ∈ rest, a.box = b.name → stray a.key

def GcInv (b : Box) (stray : String × String → Prop) (watched : List (String × Allocation)) : Gc → Prop
  | .inspecting names ips used | .destroying _ names ips used => Scanning b stray watched names ips used
  | .readingIp name names ips used => Scanning b stray watched (name :: names) ips used
  | .freeing rest => Freeing b stray rest
  | _ => True

theorem Scanning.mono {b : Box} {stray stray' : String × String → Prop} {watched : List (String × Allocation)}
    {names ips : List String} {used : List Allocation} (h : Scanning b stray watched names ips used)
    (hs : ∀ k, stray k → stray' k) : Scanning b stray' watched names ips used :=
  ⟨h.nodup,fun a ha hb => (h.strays a ha hb).imp_left (hs a.key),h.found⟩

theorem GcInv.mono {b : Box} {stray stray' : String × String → Prop} {watched : List (String × Allocation)} {g : Gc}
    (h : GcInv b stray watched g) (hs : ∀ k, stray k → stray' k) : GcInv b stray' watched g := by
  cases g with
  | inspecting names ips used => exact Scanning.mono h hs
  | destroying name names ips used => exact Scanning.mono h hs
  | readingIp name names ips used => exact Scanning.mono h hs
  | freeing rest => exact ⟨h.nodup,fun a ha hb => hs a.key (h.strays a ha hb)⟩
  | start => trivial
  | listed names => trivial
  | finished => trivial

def Stored (db : Db) (sp : Spawn) : Prop :=
  ∀ a ∈ sp.allocation, record db a.netId a.id = some a ∧ a.netId = sp.netId ∧ a.box = sp.box

structure Inv (b : Box) (s : State) : Prop where
  keyed : WellKeyed s.db
  owned : Lease.Owned (held s.db) s.owners
  stored : ∀ sp ∈ s.spawns, Stored s.db sp
  gc : GcInv b s.Stray s.watched s.gc

theorem inv_initial (b : Box) {db : Db} (h : WellKeyed db) (porto : ExtTreeMap String PortoContainer compare) :
    Inv b (initial db porto) :=
  ⟨h,.nil _,by simp [initial],trivial⟩

/-! ## Steps of the spawns -/

variable {b : Box} {s : State}

theorem Inv.move (hs : Inv b s) {db : Db} {porto : ExtTreeMap String PortoContainer compare} {spawns : List Spawn}
    (hk : WellKeyed db) (ho : Lease.Owned (held db) (spawns.map Spawn.lease)) (hst : ∀ sp ∈ spawns, Stored db sp)
    (hstray : ∀ k, Lease.Stray (held s.db) s.owners k → Lease.Stray (held db) (spawns.map Spawn.lease) k) :
    Inv b { s with db := db, porto := porto, spawns := spawns } :=
  ⟨hk,ho,hst,hs.gc.mono hstray⟩

theorem owners_perm {i : ℕ} {sp : Spawn} (hi : s.spawns[i]? = some sp) :
    s.owners.Perm (sp.lease :: (s.spawns.eraseIdx i).map Spawn.lease) :=
  (perm_cons_eraseIdx hi).map Spawn.lease

theorem owners_set_perm {i : ℕ} {sp : Spawn} (hi : s.spawns[i]? = some sp) (sp' : Spawn) :
    (sp'.lease :: (s.spawns.eraseIdx i).map Spawn.lease).Perm ((s.spawns.set i sp').map Spawn.lease) :=
  ((set_perm_cons_eraseIdx hi sp').map Spawn.lease).symm

theorem stored_set {i : ℕ} {sp sp' : Spawn} (hi : s.spawns[i]? = some sp) {db : Db} (hn : Stored db sp')
    (ho : ∀ x ∈ s.spawns.eraseIdx i, Stored db x) : ∀ x ∈ s.spawns.set i sp', Stored db x := by
  intro x hx
  rcases List.mem_cons.mp ((set_perm_cons_eraseIdx hi sp').mem_iff.mp hx) with rfl | hx
  · exact hn
  · exact ho x hx

theorem Inv.keep (hs : Inv b s) {i : ℕ} {sp : Spawn} (hi : s.spawns[i]? = some sp) {p : Progress}
    (hp : Spawn.allocation { sp with progress := p } = sp.allocation)
    (porto : ExtTreeMap String PortoContainer compare) : Inv b { s.put i sp p with porto := porto } := by
  have hl : Spawn.lease { sp with progress := p } = sp.lease := congrArg (Option.map Allocation.key) hp
  have hperm : s.owners.Perm ((s.spawns.set i { sp with progress := p }).map Spawn.lease) := by
    refine (owners_perm hi).trans ?_
    rw [← hl]
    exact owners_set_perm hi _
  refine hs.move hs.keyed (hs.owned.perm hperm) ?_ fun k hk => hk.perm hperm
  refine stored_set hi ?_ fun x hx => hs.stored x (List.mem_of_mem_eraseIdx hx)
  intro a ha
  rw [hp] at ha
  exact hs.stored sp (List.mem_of_getElem? hi) a ha

theorem Inv.take (hs : Inv b s) {i : ℕ} {sp : Spawn} (hi : s.spawns[i]? = some sp) (hp : sp.allocation = none)
    {a : Allocation} {db : Db} (hh : Handed s.db sp.netId sp.box a db) :
    Inv b { s.put i sp (.settingIp a) with db := db } := by
  have hkey : a.key = (sp.netId,a.id) := congrArg (fun n => (n,a.id)) hh.ownNetId
  have hl : Spawn.lease { sp with progress := .settingIp a } = some (sp.netId,a.id) := congrArg some hkey
  have hnone : sp.lease = none := congrArg (Option.map Allocation.key) hp
  have hset := owners_set_perm hi { sp with progress := .settingIp a }
  rw [hl] at hset
  have hbefore := hs.owned.perm (owners_perm hi)
  rw [hnone] at hbefore
  refine hs.move (hh.wellKeyed hs.keyed) ((hbefore.forget.acquire hh.acquires).perm hset) (stored_set hi ?_ ?_) ?_
  · intro r hr
    cases hr
    refine ⟨?_,hh.ownNetId,hh.ownBox⟩
    rw [hh.ownNetId]
    exact hh.after
  · intro x hx r hr
    obtain ⟨hrec,hnet,hbox⟩ := hs.stored x (List.mem_of_mem_eraseIdx hx) r hr
    refine ⟨hh.others.kept _ _ r ?_ hrec,hnet,hbox⟩
    intro he
    have hheld : r.key ∈ held s.db := by
      refine hs.owned.held r.key ?_
      exact List.mem_map.mpr ⟨x,List.mem_of_mem_eraseIdx hx,congrArg (Option.map Allocation.key) hr⟩
    obtain ⟨v,hv,hu⟩ := hheld
    have hk : r.netId = sp.netId ∧ r.id = a.id := Prod.mk.inj he
    rw [Allocation.key, hk.1, hk.2] at hv
    rw [hh.before v hv] at hu
    cases hu
  · intro k hk
    have hk' := hk.perm (owners_perm hi)
    rw [hnone] at hk'
    exact (hk'.forget.acquire hh.acquires).perm hset

theorem Inv.give (hs : Inv b s) {i : ℕ} {sp : Spawn} (hi : s.spawns[i]? = some sp) {a : Allocation}
    (ha : sp.allocation = some a) {p : Progress} (hp : Spawn.allocation { sp with progress := p } = none)
    {db : Db} (hdb : Freed s.db a.netId a.id db ∨ db = s.db) (porto : ExtTreeMap String PortoContainer compare) :
    Inv b { s.put i sp p with db := db, porto := porto } := by
  have hl : Spawn.lease { sp with progress := p } = none := congrArg (Option.map Allocation.key) hp
  have hsome : sp.lease = some a.key := congrArg (Option.map Allocation.key) ha
  have hset := owners_set_perm hi { sp with progress := p }
  rw [hl] at hset
  have hbefore := hs.owned.perm (owners_perm hi)
  rw [hsome] at hbefore
  have hnone : ∀ db, Stored db { sp with progress := p } := by
    intro db r hr
    rw [hp] at hr
    cases hr
  rcases hdb with hf | rfl
  · refine hs.move (hf.wellKeyed hs.keyed) ((hbefore.release hf.releases).idle.perm hset)
      (stored_set hi (hnone db) ?_) ?_
    · intro x hx r hr
      obtain ⟨hrec,hrest⟩ := hs.stored x (List.mem_of_mem_eraseIdx hx) r hr
      refine ⟨?_,hrest⟩
      rw [hf.others]
      · exact hrec
      · intro he
        refine hbefore.notMem (List.mem_map.mpr ⟨x,hx,?_⟩)
        rw [Spawn.lease, hr]
        exact congrArg some he
    · intro k hk
      have hk' := hk.perm (owners_perm hi)
      rw [hsome] at hk'
      exact (hk'.release hf.releases).idle.perm hset
  · refine hs.move hs.keyed (hbefore.forget.idle.perm hset)
      (stored_set hi (hnone _) fun x hx => hs.stored x (List.mem_of_mem_eraseIdx hx)) ?_
    intro k hk
    have hk' := hk.perm (owners_perm hi)
    exact hk'.forget.idle.perm hset

theorem Inv.create (hs : Inv b s) {i : ℕ} {ok : Bool} {t : State} (h : s.create i ok = some t) : Inv b t := by
  obtain ⟨sp,hi,h⟩ := Option.bind_eq_some_iff.mp h
  split at h
  · rename_i hp
    split at h
    · cases h
      exact hs.keep hi (by simp [Spawn.allocation, hp]) _
    · cases h
      exact hs.keep hi (by simp [Spawn.allocation, hp]) s.porto
  · cases h

theorem Inv.useAlloc (hs : Inv b s) {cfg : MtnCfg} {i : ℕ} {env : Env} {t : State}
    (hf : ∀ sp ∈ s.spawns[i]?, FreshFor s.db sp.netId env) (h : s.useAlloc cfg i env = some t) : Inv b t := by
  obtain ⟨sp,hi,h⟩ := Option.bind_eq_some_iff.mp h
  split at h
  · rename_i hp
    have hnone : sp.allocation = none := by simp [Spawn.allocation, hp]
    rcases hu : Mtn.useAlloc cfg sp.netId sp.box ⟨s.db,env⟩ with ⟨o,st⟩
    rw [hu] at h
    cases o with
    | ok a =>
      cases h
      exact hs.take hi hnone (useAlloc_handed hs.keyed (hf sp hi) hu)
    | error _ | panic _ =>
      cases h
      have hd : st.db = s.db := transaction_fails _ _ _ hu nofun
      rw [hd]
      exact hs.keep hi (by simp [Spawn.allocation, hp]) s.porto
  · cases h

theorem Inv.setIp (hs : Inv b s) {i : ℕ} {ok : Bool} {t : State} (h : s.setIp i ok = some t) : Inv b t := by
  obtain ⟨sp,hi,h⟩ := Option.bind_eq_some_iff.mp h
  split at h
  · rename_i a hp
    split at h
    · cases h
      exact hs.keep hi (by simp [Spawn.allocation, hp]) _
    · cases h
      exact hs.keep hi (by simp [Spawn.allocation, hp]) s.porto
  · cases h

theorem Inv.start (hs : Inv b s) {i : ℕ} {ok : Bool} {t : State} (h : s.start i ok = some t) : Inv b t := by
  obtain ⟨sp,hi,h⟩ := Option.bind_eq_some_iff.mp h
  split at h
  · rename_i a hp
    split at h
    · cases h
      exact hs.keep hi (by simp [Spawn.allocation, hp]) _
    · cases h
      exact hs.keep hi (by simp [Spawn.allocation, hp]) s.porto
  · cases h

theorem Inv.cleanup (hs : Inv b s) {i : ℕ} {env : Env} {t : State} (h : s.cleanup i env = some t) : Inv b t := by
  obtain ⟨sp,hi,h⟩ := Option.bind_eq_some_iff.mp h
  split at h
  · rename_i a hp
    cases h
    have ha : sp.allocation = some a := by simp [Spawn.allocation, hp]
    have hnet := (hs.stored sp (List.mem_of_getElem? hi) a ha).2.1
    rw [← hnet]
    exact hs.give hi ha rfl (unuseAlloc_cases a.netId a.id ⟨s.db,env⟩) s.porto
  · cases h

theorem Inv.destroy (hs : Inv b s) {i : ℕ} {t : State} (h : s.destroy i = some t) : Inv b t := by
  obtain ⟨sp,hi,h⟩ := Option.bind_eq_some_iff.mp h
  split at h
  · rename_i a hp
    cases h
    cases a with
    | none => exact hs.keep hi (by simp [Spawn.allocation, hp]) _
    | some a =>
      have ha : sp.allocation = some a := by simp [Spawn.allocation, hp]
      exact hs.give hi ha rfl (Or.inr rfl) _
  · cases h

theorem Inv.spawn (hs : Inv b s) (name netId box : String) :
    Inv b { s with spawns := s.spawns ++ [⟨name,netId,box,.creating⟩] } := by
  have hperm : (none :: s.owners).Perm ((s.spawns ++ [Spawn.mk name netId box .creating]).map Spawn.lease) := by
    rw [List.map_append]
    exact (List.perm_append_singleton _ _).symm
  refine hs.move hs.keyed (hs.owned.idle.perm hperm) ?_ fun k hk => hk.idle.perm hperm
  intro sp hsp
  rcases List.mem_append.mp hsp with hsp | hsp
  · exact hs.stored sp hsp
  · rw [List.mem_singleton.mp hsp]
    intro a ha
    cases ha

theorem Inv.bindAllocs (hs : Inv b s) {cfg : MtnCfg} {netId : String} {env : Env} (hf : FreshFor s.db netId env) :
    Inv b { s with db := (Mtn.bindAllocs cfg netId ⟨s.db,env⟩).2.db } := by
  have hg := bindAllocs_grown (c := cfg) hf
  refine hs.move (hg.wellKeyed hs.keyed) ?_ ?_ ?_
  · rw [hg.held_eq]
    exact hs.owned
  · intro sp hsp a ha
    obtain ⟨hrec,hrest⟩ := hs.stored sp hsp a ha
    exact ⟨hg.kept _ _ a (Set.notMem_empty _) hrec,hrest⟩
  · intro k hk
    rw [hg.held_eq]
    exact hk

/-! ## Steps of the collection -/

theorem Inv.list (hs : Inv b s) {ok : Bool} {t : State} (h : s.list ok = some t) : Inv b t := by
  unfold State.list at h
  split at h
  · cases h
    exact ⟨hs.keyed,hs.owned,hs.stored,trivial⟩
  · cases h

theorem mem_holders {sp : Spawn} (hsp : sp ∈ s.spawns) (hb : sp.box = b.name) {a : Allocation}
    (ha : sp.allocation = some a) : (sp.name,a) ∈ s.holders b :=
  List.mem_filterMap.mpr ⟨sp,hsp,by simp [hb, ha]⟩

theorem Inv.usedAllocations (hs : Inv b s) {cfg : MtnCfg} {env : Env} {t : State}
    (hseen : Seen cfg b s (.usedAllocations env)) (h : s.usedAllocations cfg b env = some t) : Inv b t := by
  unfold State.usedAllocations at h
  split at h
  · rename_i names hgc
    obtain ⟨hused,hlisted⟩ := hseen
    rcases hu : Mtn.usedAllocations cfg ⟨s.db,env⟩ with ⟨o,st⟩
    have hd : st.db = s.db := (usedAllocations_sameDb cfg).of_eq hu
    rw [hu] at h hused
    cases o with
    | ok r =>
      cases h
      obtain ⟨hrec,hnodup⟩ := usedAllocations_ok hs.keyed hu
      rw [hd]
      refine ⟨hs.keyed,hs.owned,hs.stored,hnodup,?_,?_⟩
      · intro a ha hbox
        by_cases how : some a.key ∈ s.owners
        · obtain ⟨sp,hsp,hl⟩ := List.mem_map.mp how
          obtain ⟨a',ha',hkey⟩ := Option.map_eq_some_iff.mp hl
          obtain ⟨hrec',-,hbox'⟩ := hs.stored sp hsp a' ha'
          have hk : a'.netId = a.netId ∧ a'.id = a.id := Prod.mk.inj hkey
          rw [hk.1, hk.2, hrec a ha] at hrec'
          cases hrec'
          exact Or.inr ⟨(sp.name,a),mem_holders hsp (hbox' ▸ hbox) ha',rfl⟩
        · exact Or.inl ⟨⟨a,hrec a ha,hused r rfl a ha⟩,how⟩
      · intro hh hmem
        exact Or.inl (hlisted names (by rw [hgc]; rfl) hh hmem)
    | error _ | panic _ =>
      cases h
      rw [hd]
      exact ⟨hs.keyed,hs.owned,hs.stored,trivial⟩
  · cases h

theorem inspect_cases (name : String) (names ips : List String) (used : List Allocation)
    (st : Option ContainerState) :
    inspect b name names ips used st = .readingIp name names ips used ∨
      (st ≠ some .running ∧ st ≠ some .starting) ∧
        (inspect b name names ips used st = .destroying name names ips used ∨
          inspect b name names ips used st = .inspecting names ips used) := by
  unfold inspect
  split
  · exact Or.inr ⟨⟨nofun,nofun⟩,Or.inl rfl⟩
  · split
    · exact Or.inr ⟨⟨nofun,nofun⟩,Or.inl rfl⟩
    · exact Or.inr ⟨⟨nofun,nofun⟩,Or.inr rfl⟩
  · exact Or.inl rfl
  · exact Or.inl rfl
  · exact Or.inr ⟨⟨nofun,nofun⟩,Or.inr rfl⟩
  · exact Or.inr ⟨⟨nofun,nofun⟩,Or.inr rfl⟩
  · exact Or.inr ⟨⟨nofun,nofun⟩,Or.inr rfl⟩

theorem Inv.getState (hs : Inv b s) {cfg : MtnCfg} {ok : Bool} {t : State} (hseen : Seen cfg b s (.getState ok))
    (h : s.getState b ok = some t) : Inv b t := by
  unfold State.getState at h
  split at h
  · rename_i name names ips used hgc
    cases h
    have hg := hs.gc
    rw [hgc] at hg
    refine ⟨hs.keyed,hs.owned,hs.stored,?_⟩
    rcases inspect_cases (b := b) name names ips used ((s.ask name ok).map PortoContainer.state) with hr | ⟨hne,hr⟩
    · dsimp only
      rw [hr]
      exact hg
    · have hpast : Scanning b s.Stray s.watched names ips used := by
        refine ⟨hg.nodup,hg.strays,?_⟩
        intro hh hmem
        rcases hg.found hh hmem with hin | hip
        · rcases List.mem_cons.mp hin with heq | hin
          · obtain ⟨c,hc,hst⟩ := hseen name (by rw [hgc]; rfl) hh hmem heq
            rw [Option.mem_def.mp hc] at hne
            rcases hst with hst | hst
            · exact absurd (congrArg some hst) hne.1
            · exact absurd (congrArg some hst) hne.2
          · exact Or.inl hin
        · exact Or.inr hip
      dsimp only
      rcases hr with hr | hr <;> rw [hr] <;> exact hpast
  · cases h

theorem Inv.destroyListed (hs : Inv b s) {t : State} (h : s.destroyListed = some t) : Inv b t := by
  unfold State.destroyListed at h
  split at h
  · rename_i name names ips used hgc
    cases h
    have hg := hs.gc
    rw [hgc] at hg
    exact ⟨hs.keyed,hs.owned,hs.stored,hg⟩
  · cases h

theorem Inv.getIp (hs : Inv b s) {cfg : MtnCfg} {ok : Bool} {t : State} (hseen : Seen cfg b s (.getIp ok))
    (h : s.getIp ok = some t) : Inv b t := by
  unfold State.getIp at h
  split at h
  · rename_i name names ips used hgc
    cases h
    have hg := hs.gc
    rw [hgc] at hg
    refine ⟨hs.keyed,hs.owned,hs.stored,hg.nodup,hg.strays,?_⟩
    intro hh hmem
    rcases hg.found hh hmem with hin | hip
    · rcases List.mem_cons.mp hin with heq | hin
      · obtain ⟨hlen,c,hc,hip⟩ := hseen name (by rw [hgc]; rfl) hh hmem heq
        have hread : ((s.ask name ok).map PortoContainer.ip).getD "" = hh.2.ip := by
          simp [Option.mem_def.mp hc, hip]
        refine Or.inr ?_
        rw [hread, if_pos hlen]
        simp
      · exact Or.inl hin
    · refine Or.inr ?_
      split
      · exact List.mem_append_left _ hip
      · exact hip
  · cases h

theorem Inv.compareIps (hs : Inv b s) {t : State} (h : s.compareIps = some t) : Inv b t := by
  unfold State.compareIps at h
  split at h
  · rename_i ips used hgc
    cases h
    have hg := hs.gc
    rw [hgc] at hg
    refine ⟨hs.keyed,hs.owned,hs.stored,?_,?_⟩
    · exact ((List.filter_sublist).map _).nodup hg.nodup
    · intro a ha hbox
      obtain ⟨hmem,hkept⟩ := List.mem_filter.mp ha
      rcases hg.strays a hmem hbox with hst | ⟨hh,hw,hip⟩
      · exact hst
      · exfalso
        rcases hg.found hh hw with hin | hfound
        · cases hin
        · rw [hip] at hfound
          simp [hfound] at hkept
  · cases h

theorem Inv.unuseAlloc (hs : Inv b s) {env : Env} {t : State} (h : s.unuseAlloc b env = some t) : Inv b t := by
  unfold State.unuseAlloc at h
  split at h
  · cases h
    exact ⟨hs.keyed,hs.owned,hs.stored,trivial⟩
  · rename_i a rest hgc
    have hg := hs.gc
    rw [hgc] at hg
    have hnodup := hg.nodup
    rw [List.map_cons, List.nodup_cons] at hnodup
    have hrest : Freeing b s.Stray rest := ⟨hnodup.2,fun x hx => hg.strays x (List.mem_cons_of_mem a hx)⟩
    split at h
    · rename_i hbox
      cases h
      have ha : s.Stray a.key := hg.strays a List.mem_cons_self hbox
      rcases unuseAlloc_cases a.netId a.id ⟨s.db,env⟩ with hf | hd
      · refine ⟨hf.wellKeyed hs.keyed,hs.owned.release_stray ha hf.releases,?_,hrest.nodup,?_⟩
        · intro sp hsp r hr
          obtain ⟨hrec,hmore⟩ := hs.stored sp hsp r hr
          refine ⟨?_,hmore⟩
          rw [hf.others]
          · exact hrec
          · intro he
            refine ha.unowned (List.mem_map.mpr ⟨sp,hsp,?_⟩)
            rw [Spawn.lease, hr]
            exact congrArg some he
        · intro x hx hxb
          refine (hrest.strays x hx hxb).release_other ?_ hf.releases
          intro he
          exact hnodup.1 (List.mem_map.mpr ⟨x,hx,he.symm⟩)
      · dsimp only at hd
        rw [hd]
        exact ⟨hs.keyed,hs.owned,hs.stored,hrest⟩
    · cases h
      exact ⟨hs.keyed,hs.owned,hs.stored,hrest⟩
  · cases h

theorem step_inv {cfg : MtnCfg} (s : State) (l : Label) (t : State) (hs : Inv b s) (hl : Seen cfg b s l)
    (h : step cfg b s l = some t) : Inv b t := by
  cases l with
  | spawn name netId box =>
    cases h
    exact hs.spawn name netId box
  | create i ok => exact hs.create h
  | useAlloc i env => exact hs.useAlloc hl h
  | setIp i ok => exact hs.setIp h
  | start i ok => exact hs.start h
  | cleanup i env => exact hs.cleanup h
  | destroy i => exact hs.destroy h
  | bindAllocs netId env =>
    cases h
    exact hs.bindAllocs hl
  | porto name c =>
    cases h
    exact ⟨hs.keyed,hs.owned,hs.stored,hs.gc⟩
  | list ok => exact hs.list h
  | usedAllocations env => exact hs.usedAllocations hl h
  | getState ok => exact hs.getState hl h
  | destroyListed => exact hs.destroyListed h
  | getIp ok => exact hs.getIp hl h
  | compareIps => exact hs.compareIps h
  | unuseAlloc env => exact hs.unuseAlloc h

end Stout.Porto.StartupGc
