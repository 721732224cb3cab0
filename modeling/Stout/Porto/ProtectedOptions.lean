import Stout.Porto.ContainerFails

/-! # Protected options of a container

`CreateContainer` copies the free-form `container` section of the profile into the
properties first and then assigns `command`, `root`, `enable_porto` and `net` over it.
Two runs whose profiles differ in that section only are compared: same configuration,
same world, and the same order of the arguments, which Go chooses anew in each run.
-/
namespace Stout.Porto
open Std (ExtTreeMap)
open Prog Mtn RangeOrder

def protectedOptions : List String := ["command","root","enable_porto","net"]

def ContainerConfig.withContainer (c : ContainerConfig) (container : Map) : ContainerConfig :=
  { c with profile := { c.profile with container := container } }

/-- A call that led from `w` to `t` has set `property` to `value`. -/
def Sets (w t : World) (property value : String) : Prop :=
  ∃ id, .setProperty id property value ∈ t.log.drop w.log.length

/-- Two calls from `w` set `property` to the same value; if neither fails, one of them
sets it only if the other does. -/
def SameValue (w : World) (r r' : Outcome Err ContainerConfig × World) (property : String) : Prop :=
  (∀ v v', Sets w r.2 property v → Sets w r'.2 property v' → v = v') ∧
    ((∃ c, r.1 = .ok c) → (∃ c, r'.1 = .ok c) → ∀ v, Sets w r.2 property v ↔ Sets w r'.2 property v)

/-- Neither `container` section has a say in the protected options. -/
def Protected (c : ContainerConfig) (k k' : Map) (root : ℕ) (extraVolumes : List ℕ) (w : World) : Prop :=
  ∀ o o' : Outside, o.argsOrder = o'.argsOrder → ∀ property ∈ protectedOptions,
    SameValue w (createContainer o (c.withContainer k) root extraVolumes w)
      (createContainer o' (c.withContainer k') root extraVolumes w) property

/-! ## What is set -/

/-- The log grows, and each property set is one of `P`. -/
def Logs (P : String → String → Prop) (w t : World) : Prop :=
  ∃ l, t.log = w.log ++ l ∧ ∀ id property value, .setProperty id property value ∈ l → P property value

instance (P : String → String → Prop) : IsPreorder World (Logs P) where
  refl w := ⟨[],by simp,by simp⟩
  trans w t u h k := by
    obtain ⟨l,hl,hP⟩ := h
    obtain ⟨m,hm,hP'⟩ := k
    refine ⟨l ++ m,by rw [hm, hl, List.append_assoc],?_⟩
    intro id property value hc
    rcases List.mem_append.mp hc with hc | hc
    · exact hP id property value hc
    · exact hP' id property value hc

theorem Logs.of_sets {P : String → String → Prop} {w t : World} (h : Logs P w t) {property value : String}
    (hs : Sets w t property value) : P property value := by
  obtain ⟨l,hl,hP⟩ := h
  obtain ⟨id,hc⟩ := hs
  rw [hl, List.drop_left] at hc
  exact hP id property value hc

theorem Logs.sets_of_mem {P : String → String → Prop} {w t u : World} {property value : String} {l : List Call}
    (h : Logs P t u) (id : String) (ht : t.log = w.log ++ l) (hc : .setProperty id property value ∈ l) : Sets w u property value := by
  obtain ⟨m,hm,-⟩ := h
  refine ⟨id,?_⟩
  rw [hm, ht, List.append_assoc, List.drop_left]
  exact List.mem_append_left m hc

section Logging
variable {P : String → String → Prop}

theorem always_logs {calls : List Call} (h : ∀ id property value, .setProperty id property value ∉ calls) :
    Moves (Logs P) (always calls) :=
  fun _ => ⟨calls,rfl,fun id property value hc => absurd hc (h id property value)⟩

theorem trying_logs (o : Outside) (p : Point) {call : Call}
    (h : ∀ id property value, call = .setProperty id property value → P property value) :
    Moves (Logs P) (trying o p call) := by
  unfold trying
  cases o.fault p with
  | none =>
    intro w
    refine ⟨[call],rfl,?_⟩
    intro id property value hc
    exact h id property value (List.mem_singleton.mp hc).symm
  | some e => exact .throw _

theorem link_logs (o : Outside) (p : Point) (v : ℕ) : Moves (Logs P) (link o p v) := by
  refine Moves.read.bind fun w => (trying_logs o p nofun).bind fun _ => (always_logs (by simp)).bind fun _ => ?_
  exact fun t => ⟨[],by simp [update, Prog.modify],by simp⟩

theorem linkAll_logs (o : Outside) (c : ContainerConfig) (root : ℕ) (extraVolumes : List ℕ) :
    Moves (Logs P) (linkAll o c root extraVolumes) := by
  have hd : Moves (Logs P) (always [.destroy c.id]) := always_logs (by simp)
  exact ((link_logs o _ root).onError hd).bind fun _ => Moves.forM fun p => (link_logs o _ p.1).onError hd

end Logging

theorem setProperties_logs (o : Outside) (c : ContainerConfig) (properties : Map) :
    Moves (Logs fun property value => properties[property]? = some value) (setProperties o c properties) := by
  refine Moves.forM_mem fun p hp => trying_logs o _ ?_
  intro id property value he
  cases he
  exact mem_arrange_toList.mp hp

theorem setProperties_ok {o : Outside} {c : ContainerConfig} {properties : Map} {w t : World} {u : PUnit}
    (h : setProperties o c properties w = (.ok u,t)) :
    t.log = w.log ++ (arrange o.propertiesOrder properties.toList).map fun p => .setProperty c.id p.1 p.2 := by
  refine forM_invariant (I := fun pre t => t.log = w.log ++ pre.map fun p => .setProperty c.id p.1 p.2) ?_ (by simp) h
  intro pre p post s t u _ hs hp
  unfold trying at hp
  cases hf : o.fault (.setProperty p.1) with
  | none =>
    rw [hf] at hp
    cases hp
    simp [World.record, hs]
  | some e =>
    rw [hf] at hp
    cases hp

theorem finish_logs (o : Outside) (root : ℕ) (extraVolumes : List ℕ) (r : Map × ContainerConfig) :
    Moves (Logs fun property value => r.1[property]? = some value) (finish o root extraVolumes r) :=
  (setProperties_logs o r.2 r.1).bind fun _ => (linkAll_logs o r.2 root extraVolumes).bind fun _ => .pure _

theorem finish_sets {o : Outside} {root : ℕ} {extraVolumes : List ℕ} {r : Map × ContainerConfig} {w t : World}
    {c : ContainerConfig} (h : finish o root extraVolumes r w = (.ok c,t)) {property value : String}
    (hv : r.1[property]? = some value) : Sets w t property value := by
  obtain ⟨_,w₁,hset,h⟩ := of_bind_ok h
  obtain ⟨_,w₂,hlink,h⟩ := of_bind_ok h
  cases h
  have hl : Logs (fun _ _ => True) w₁ t := (linkAll_logs o r.2 root extraVolumes).of_eq hlink
  refine hl.sets_of_mem r.2.id (setProperties_ok hset) ?_
  exact List.mem_map.mpr ⟨(property,value),mem_arrange_toList.mpr hv,rfl⟩

/-! ## The properties of a run -/

/-- The properties that the run sets, if `UseAlloc` does not end it before. -/
def ContainerConfig.finalProperties (o : Outside) (c : ContainerConfig) (root : ℕ) (w : World) : Option Map :=
  let properties := c.properties o (w.volume root).path
  if c.asksMtn then
    (useAlloc c.mtnCfg c.netid c.boxName w.mtn).1.value?.map (withAllocation properties)
  else some (c.withoutMtn properties)

section Running
variable {o : Outside} {c : ContainerConfig} {root : ℕ} {extraVolumes : List ℕ} {w : World}

theorem finalProperties_of_not_asksMtn (h : ¬c.asksMtn) :
    c.finalProperties o root w = some (c.withoutMtn (c.properties o (w.volume root).path)) := by
  unfold ContainerConfig.finalProperties
  dsimp only
  rw [if_neg h]

theorem finalProperties_of_asksMtn (h : c.asksMtn) :
    c.finalProperties o root w = (useAlloc c.mtnCfg c.netid c.boxName w.mtn).1.value?.map
      (withAllocation (c.properties o (w.volume root).path)) := by
  unfold ContainerConfig.finalProperties
  dsimp only
  rw [if_pos h]

/-- With a network for the container, what follows sets the properties; without one the
call ends. The log is not touched. -/
theorem network_finalProperties (o : Outside) (c : ContainerConfig) (root : ℕ) (w' : World) (hw : w'.mtn = w.mtn) :
    ∃ r t, network c (c.properties o (w.volume root).path) w' = (r,t) ∧ t.log = w'.log ∧
      c.finalProperties o root w = r.value?.map Prod.fst := by
  by_cases h : c.asksMtn
  · rw [network_of_asksMtn h, finalProperties_of_asksMtn h, hw]
    rcases useAlloc c.mtnCfg c.netid c.boxName w.mtn with ⟨r,st⟩
    cases r with
    | ok a => exact ⟨_,_,rfl,rfl,rfl⟩
    | error e => exact ⟨_,_,rfl,rfl,rfl⟩
    | panic p => exact ⟨_,_,rfl,rfl,rfl⟩
  · rw [network_of_not_asksMtn h, finalProperties_of_not_asksMtn h]
    exact ⟨_,_,rfl,rfl,rfl⟩

theorem Logs.refl_of_log_eq (P : String → String → Prop) {w t : World} (ht : t.log = w.log) : Logs P w t :=
  ⟨[],by rw [ht, List.append_nil],by simp⟩

theorem createContainer_logs :
    Logs (fun property value => ∃ properties, c.finalProperties o root w = some properties ∧
      properties[property]? = some value) w (createContainer o c root extraVolumes w).2 := by
  cases hf : o.fault .create with
  | some e =>
    rw [createContainer_of_fault hf]
    exact refl_of (Logs _) w
  | none =>
    rw [createContainer_of_create hf]
    refine trans_of (Logs _) (b := w.record [.create c.id]) ⟨[.create c.id],rfl,by simp⟩ ?_
    refine onError_moves ?_ (always_logs (by simp))
    obtain ⟨r,t,hn,ht,hp⟩ := network_finalProperties o c root (w.record [.create c.id]) (record_mtn w _)
    cases r with
    | ok r =>
      rw [bind_ok hn]
      obtain ⟨l,hl,hP⟩ := finish_logs o root extraVolumes r t
      refine ⟨l,by rw [hl, ht],?_⟩
      intro id property value hc
      exact ⟨r.1,hp,hP id property value hc⟩
    | error e =>
      rw [bind_error hn]
      exact .refl_of_log_eq _ ht
    | panic p =>
      rw [bind_panic hn]
      exact .refl_of_log_eq _ ht

theorem createContainer_sets {c' : ContainerConfig} (h : (createContainer o c root extraVolumes w).1 = .ok c') :
    ∃ properties, c.finalProperties o root w = some properties ∧
      ∀ property value, properties[property]? = some value →
        Sets w (createContainer o c root extraVolumes w).2 property value := by
  rcases hc : createContainer o c root extraVolumes w with ⟨r,t⟩
  rw [hc] at h
  cases h
  cases hf : o.fault .create with
  | some e =>
    rw [createContainer_of_fault hf] at hc
    cases hc
  | none =>
    rw [createContainer_of_create hf] at hc
    obtain ⟨r,u,hn,hfin⟩ := of_bind_ok (of_onError_ok hc)
    obtain ⟨r',t',hn',ht,hp⟩ := network_finalProperties o c root (w.record [.create c.id]) (record_mtn w _)
    rw [hn] at hn'
    cases hn'
    refine ⟨r.1,hp,?_⟩
    intro property value hv
    obtain ⟨id,hm⟩ := finish_sets hfin hv
    obtain ⟨l,hl,-⟩ := (finish_logs o root extraVolumes r).of_eq hfin
    refine ⟨id,?_⟩
    rw [hl, List.drop_left] at hm
    rw [hl, ht, World.record, List.append_assoc, List.drop_left]
    exact List.mem_append_right _ hm

theorem createContainer_sets_iff {c' : ContainerConfig} (h : (createContainer o c root extraVolumes w).1 = .ok c')
    {properties : Map} (hp : c.finalProperties o root w = some properties) (property value : String) :
    Sets w (createContainer o c root extraVolumes w).2 property value ↔ properties[property]? = some value := by
  constructor
  · intro hs
    obtain ⟨properties',hp',hv⟩ := createContainer_logs.of_sets hs
    rw [hp] at hp'
    cases hp'
    exact hv
  · intro hv
    obtain ⟨properties',hp',hs⟩ := createContainer_sets h
    rw [hp] at hp'
    cases hp'
    exact hs property value hv

/-- With MTN on and not asked for, nothing but the points of `Outside` can fail. -/
theorem createContainer_ok (hm : ¬c.asksMtn) (hf : ∀ p, o.fault p = none) :
    ∃ c', (createContainer o c root extraVolumes w).1 = .ok c' := by
  have hlate : ∀ properties, ¬LateFails o extraVolumes.length properties := by
    simp [LateFails, hf]
  rw [createContainer_of_create (hf _)]
  obtain ⟨c',t,hfin⟩ := (finish_failsIff o root extraVolumes (c.withoutMtn (c.properties o (w.volume root).path),
    { c with mtn := false })).exists_ok (hlate _) (w.record [.create c.id])
  refine ⟨c',?_⟩
  rw [onError, bind_ok (network_of_not_asksMtn hm _ _), hfin]

end Running

/-! ## The protected ones -/

theorem foldl_insert_eq (l : List (String × String)) (properties : Map) :
    l.foldl (fun m p => m.insert p.1 p.2) properties = properties.insertMany l := by
  induction l generalizing properties with
  | nil => rw [ExtTreeMap.insertMany_nil]; rfl
  | cons p l ih => rw [List.foldl_cons, ih, ExtTreeMap.insertMany_cons]

theorem getElem?_copied (container properties : Map) (property : String) :
    (container.foldl (fun m property value => m.insert property value) properties)[property]? =
      container[property]?.or properties[property]? := by
  rw [ExtTreeMap.foldl_eq_foldl_toList, foldl_insert_eq]
  cases hc : container[property]? with
  | none =>
    rw [ExtTreeMap.getElem?_insertMany_list_of_contains_eq_false, Option.none_or]
    rw [ExtTreeMap.map_fst_toList_eq_keys]
    simpa using hc
  | some v =>
    rw [ExtTreeMap.getElem?_insertMany_list_of_mem Std.ReflCmp.compare_self ExtTreeMap.distinct_keys_toList, Option.some_or]
    exact ExtTreeMap.mem_toList_iff_getElem?_eq_some.mpr hc
theorem getElem?_merged {properties : Map} {property value p : String} (h : property ≠ p) :
    (merged properties property value)[p]? = properties[p]? := by
  unfold merged
  split <;> rw [ExtTreeMap.getElem?_insert, if_neg (by simpa using h)]

theorem getElem?_insert_ne {properties : Map} {property value p : String} (h : property ≠ p) :
    (properties.insert property value)[p]? = properties[p]? := by
  rw [ExtTreeMap.getElem?_insert, if_neg (by simpa using h)]

theorem getElem?_ite_insert_ne {q : Prop} [Decidable q] {properties : Map} {property value p : String} (h : property ≠ p) :
    (if q then properties.insert property value else properties)[p]? = properties[p]? := by
  split
  · exact getElem?_insert_ne h
  · rfl

variable {o : Outside} {c : ContainerConfig}

theorem properties_net (path : String) : (c.properties o path)["net"]? = c.profile.container["net"]? := by
  unfold ContainerConfig.properties
  dsimp only
  rw [getElem?_insert_ne (by decide), getElem?_insert_ne (by decide), getElem?_insert_ne (by decide),
    getElem?_ite_insert_ne (by decide), getElem?_merged (by decide), getElem?_merged (by decide), getElem?_copied,
    getElem?_ite_insert_ne (by decide), getElem?_ite_insert_ne (by decide), ExtTreeMap.getElem?_empty, Option.or_none]

theorem properties_assigned (path : String) :
    (c.properties o path)["command"]? = some (formatCommand o c.executable (formatBinds c.profile.binds c.args).2) ∧
      (c.properties o path)["root"]? = some path ∧ (c.properties o path)["enable_porto"]? = some "false" := by
  unfold ContainerConfig.properties
  dsimp only
  refine ⟨?_,?_,ExtTreeMap.getElem?_insert_self⟩
  · rw [getElem?_insert_ne (by decide), getElem?_insert_ne (by decide), ExtTreeMap.getElem?_insert_self]
  · rw [getElem?_insert_ne (by decide), ExtTreeMap.getElem?_insert_self]

def ContainerConfig.net (c : ContainerConfig) (mtn : Store) : Option String :=
  if c.mtnCfg.enable = false then some (pickNetwork c.profile.networkMode)
  else if lookup c.profile.network "mtn" = "enable" then
    (useAlloc c.mtnCfg c.netid c.boxName mtn).1.value?.map Allocation.net
  else c.profile.container["net"]?

theorem net_withContainer (c : ContainerConfig) (k : Map) (mtn : Store) :
    (c.withContainer k).net mtn =
      if c.mtnCfg.enable = false then some (pickNetwork c.profile.networkMode)
      else if lookup c.profile.network "mtn" = "enable" then
        (useAlloc c.mtnCfg c.netid c.boxName mtn).1.value?.map Allocation.net
      else k["net"]? := rfl

theorem finalProperties_other {root : ℕ} {w : World} {properties : Map}
    (h : c.finalProperties o root w = some properties) {p : String} (hp : p ∉ ["net","hostname","ip"]) :
    properties[p]? = (c.properties o (w.volume root).path)[p]? := by
  have hne : "net" ≠ p ∧ "hostname" ≠ p ∧ "ip" ≠ p := by
    refine ⟨?_,?_,?_⟩ <;> rintro rfl <;> simp at hp
  by_cases hm : c.asksMtn
  · rw [finalProperties_of_asksMtn hm] at h
    obtain ⟨a,ha,rfl⟩ := Option.map_eq_some_iff.mp h
    rw [withAllocation, getElem?_insert_ne hne.2.2, getElem?_insert_ne hne.2.1, getElem?_insert_ne hne.1]
  · rw [finalProperties_of_not_asksMtn hm] at h
    cases h
    exact getElem?_ite_insert_ne hne.1

theorem finalProperties_cases {root : ℕ} {w : World} {properties : Map}
    (h : c.finalProperties o root w = some properties) :
    properties["net"]? = c.net w.mtn ∧ ∀ p ∈ ["command","root","enable_porto"],
      properties[p]? = (c.properties o (w.volume root).path)[p]? := by
  constructor
  · by_cases hm : c.asksMtn
    · rw [finalProperties_of_asksMtn hm] at h
      obtain ⟨a,ha,rfl⟩ := Option.map_eq_some_iff.mp h
      rw [withAllocation, getElem?_insert_ne (by decide), getElem?_insert_ne (by decide), ExtTreeMap.getElem?_insert_self,
        ContainerConfig.net, if_neg (by simp [hm.1]), if_pos hm.2, ha, Option.map_some]
    · rw [finalProperties_of_not_asksMtn hm] at h
      cases h
      unfold ContainerConfig.withoutMtn ContainerConfig.net
      by_cases he : c.mtnCfg.enable = false
      · rw [if_pos he, if_pos he]
        exact ExtTreeMap.getElem?_insert_self
      · have hn : ¬lookup c.profile.network "mtn" = "enable" := fun hn => hm ⟨by simpa using he,hn⟩
        rw [if_neg he, if_neg he, if_neg hn]
        exact properties_net _
  · intro p hp
    refine finalProperties_other h ?_
    simp only [List.mem_cons, List.not_mem_nil, or_false] at hp
    rcases hp with rfl | rfl | rfl <;> decide

theorem finalProperties_eq {o' : Outside} {k k' : Map} {root : ℕ} {w : World} {properties properties' : Map}
    (ho : o.argsOrder = o'.argsOrder) (hnet : (c.withContainer k).net w.mtn = (c.withContainer k').net w.mtn)
    (h : (c.withContainer k).finalProperties o root w = some properties)
    (h' : (c.withContainer k').finalProperties o' root w = some properties') {p : String} (hp : p ∈ protectedOptions) :
    properties[p]? = properties'[p]? := by
  obtain ⟨hn,hr⟩ := finalProperties_cases h
  obtain ⟨hn',hr'⟩ := finalProperties_cases h'
  obtain ⟨hc,hroot,he⟩ := properties_assigned (o := o) (c := c.withContainer k) (w.volume root).path
  obtain ⟨hc',hroot',he'⟩ := properties_assigned (o := o') (c := c.withContainer k') (w.volume root).path
  have hcommand : ∀ executable args, formatCommand o executable args = formatCommand o' executable args := by
    intro executable args
    rw [formatCommand, formatCommand, ho]
  simp only [protectedOptions, List.mem_cons, List.not_mem_nil, or_false] at hp
  rcases hp with rfl | rfl | rfl | rfl
  · rw [hr _ (by simp), hr' _ (by simp), hc, hc', hcommand]
    rfl
  · rw [hr _ (by simp), hr' _ (by simp), hroot, hroot']
  · rw [hr _ (by simp), hr' _ (by simp), he, he']
  · rw [hn, hn', hnet]

/-- MTN is on and not asked for: the section's `net` goes through. -/
theorem sets_net_iff {k : Map} {root : ℕ} {extraVolumes : List ℕ} {w : World} (he : c.mtnCfg.enable ≠ false)
    (hm : lookup c.profile.network "mtn" ≠ "enable") (hf : ∀ p, o.fault p = none) :
    (∃ c', (createContainer o (c.withContainer k) root extraVolumes w).1 = .ok c') ∧
      ∀ v, Sets w (createContainer o (c.withContainer k) root extraVolumes w).2 "net" v ↔ k["net"]? = some v := by
  have hask : ¬(c.withContainer k).asksMtn := fun ha => hm ha.2
  obtain ⟨c',hok⟩ := createContainer_ok hask hf
  refine ⟨⟨c',hok⟩,?_⟩
  intro v
  obtain ⟨properties,hp,-⟩ := createContainer_sets hok
  rw [createContainer_sets_iff hok hp, (finalProperties_cases hp).1, net_withContainer, if_neg he, if_neg hm]

/-- The `container` sections `k` and `k'` leave the protected options alone exactly when
MTN is off, or the profile asks for an allocation, or they agree on `net`. -/
theorem protected_iff (c : ContainerConfig) (k k' : Map) (root : ℕ) (extraVolumes : List ℕ) (w : World) :
    Protected c k k' root extraVolumes w ↔
      c.mtnCfg.enable = false ∨ lookup c.profile.network "mtn" = "enable" ∨ k["net"]? = k'["net"]? := by
  constructor
  · intro h
    by_contra hn
    push Not at hn
    obtain ⟨he,hm,hk⟩ := hn
    let o : Outside := ⟨fun _ => none,[],[],[]⟩
    obtain ⟨hok,hset⟩ := sets_net_iff (o := o) (k := k) (w := w) he hm (fun _ => rfl)
    obtain ⟨hok',hset'⟩ := sets_net_iff (o := o) (k := k') (w := w) he hm (fun _ => rfl)
    have hsame := (h o o rfl "net" (by simp [protectedOptions])).2 hok hok'
    refine hk (Option.ext fun v => ?_)
    rw [← hset, ← hset']
    exact hsame v
  · intro hcond o o' ho p hp
    have hnet : (c.withContainer k).net w.mtn = (c.withContainer k').net w.mtn := by
      rw [net_withContainer, net_withContainer]
      rcases hcond with he | hm | hk
      · rw [if_pos he, if_pos he]
      · rw [if_pos hm, if_pos hm]
      · rw [hk]
    refine ⟨?_,?_⟩
    · intro v v' hv hv'
      obtain ⟨m,hm,hmv⟩ := createContainer_logs.of_sets hv
      obtain ⟨m',hm',hmv'⟩ := createContainer_logs.of_sets hv'
      have heq := finalProperties_eq ho hnet hm hm' hp
      rw [hmv, hmv'] at heq
      exact Option.some.inj heq
    · rintro ⟨c₁,h₁⟩ ⟨c₂,h₂⟩ v
      obtain ⟨m,hm,-⟩ := createContainer_sets h₁
      obtain ⟨m',hm',-⟩ := createContainer_sets h₂
      rw [createContainer_sets_iff h₁ hm, createContainer_sets_iff h₂ hm', finalProperties_eq ho hnet hm hm' hp]

/-- MTN is on and the profile does not ask for it: the network of the host for one
section, none for the other. -/
theorem net_from_container :
    let c : ContainerConfig := ⟨⟨"registry","inherited",∅,"",[],∅,∅,[]⟩,"app","/app/run","","",∅,∅,
      ⟨true,1,"allocator","host","host",[]⟩,"box","/cont","app_1","layer",true,false,"overlay",false,"","","label"⟩
    let w : World := ⟨[],[],⟨∅,⟨[],.newRequestError "",[],[],[]⟩⟩⟩
    let o : Outside := ⟨fun _ => none,[],[],[]⟩
    Sets w (createContainer o (c.withContainer ((∅ : Map).insert "net" "host")) 0 [] w).2 "net" "host" ∧
      Sets w (createContainer o (c.withContainer ((∅ : Map).insert "net" "inherited")) 0 [] w).2 "net" "inherited" ∧
      ¬Protected c ((∅ : Map).insert "net" "host") ((∅ : Map).insert "net" "inherited") 0 [] w := by
  intro c w o
  have hset : ∀ v, Sets w (createContainer o (c.withContainer ((∅ : Map).insert "net" v)) 0 [] w).2 "net" v := by
    intro v
    obtain ⟨-,hset⟩ := sets_net_iff (o := o) (c := c) (w := w) (by decide) (by decide) (fun _ => rfl)
    exact (hset v).mpr ExtTreeMap.getElem?_insert_self
  refine ⟨hset _,hset _,?_⟩
  intro h
  have heq := (h o o rfl "net" (by simp [protectedOptions])).1 _ _ (hset "host") (hset "inherited")
  exact absurd heq (by decide)

end Stout.Porto
